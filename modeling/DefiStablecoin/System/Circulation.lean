import DefiStablecoin.Solidity.Progress
import DefiStablecoin.System.Users

/-!
# Getting tokens to where they are needed

Users can pass a token on until one of them holds all that is not stuck with the
contracts, and approve the engine for some of it.  None of this touches the engine, and
none of it loses a token.
-/

namespace DefiStablecoin.Deployment

open Solidity OpenZeppelin DSCEngine World

variable {d : Deployment} {w w' : World} {a : Action d} {t : Address}

/-! ## What can happen -/

/-- No price comes from the zero address, where nothing can be deployed, nor from the
stablecoin, the engine or a collateral token, which are no price feeds. -/
def Answerable (d : Deployment) (feed : Address → Option RoundData) : Prop :=
  feed 0 = none ∧ feed d.dsc = none ∧ feed d.dscEngine = none ∧
    ∀ t ∈ d.s_tokenAddresses, feed t = none

/-- The action can happen: a call is a user's, prices come from where there can be a
feed, and time does not go back. -/
def Feasible (w : World) : Action d → Prop
  | .oracle feed => d.Answerable feed
  | .warp timestamp => w.timestamp ≤ timestamp
  | a => ByUser a

theorem Feasible.byUser (h : Feasible w a) : ByUser a := by
  cases a with
  | oracle feed => exact nofun
  | warp timestamp => exact nofun
  | _ => exact h

theorem isUser_USER : anvil.IsUser USER := ⟨by decide, by decide⟩

theorem isUser_liquidator : anvil.IsUser liquidator := ⟨by decide, by decide⟩

theorem byUser_openPosition {user : anvil.Account} (huser : anvil.IsUser user)
    (amountCollateral amountToMint : UInt256) :
    ∀ a ∈ openPosition user amountCollateral amountToMint, ByUser a := by
  intro a ha account hactor
  simp only [openPosition, List.mem_cons, List.not_mem_nil, or_false] at ha
  rcases ha with rfl | rfl | rfl | rfl
  · cases hactor
  all_goals exact Option.some.inj hactor ▸ huser

theorem byUser_crash (answer : Int256) : ∀ a ∈ crash answer, ByUser a := by
  intro a ha
  simp only [crash, List.mem_append, List.mem_singleton] at ha
  rcases ha with (ha | ha) | rfl
  · exact byUser_openPosition isUser_USER _ _ a ha
  · exact byUser_openPosition isUser_liquidator _ _ a ha
  · exact nofun

/-- The action can always happen, sends nothing to the contracts and burns nothing, but
by the engine's own calls. -/
structure Quiet (a : Action d) : Prop where
  feasible : ∀ w, Feasible w a
  sends : ∀ t, ∀ c ∈ d.contracts, sendsTo c t a = 0
  burns : burns a = 0

theorem Quiet.byUser (h : Quiet a) : ByUser a := (h.feasible d.genesis).byUser

theorem Quiet.sendsToContracts (h : Quiet a) (t : Address) : sendsToContracts t a = 0 :=
  Finset.sum_eq_zero (h.sends t)

theorem quiet_engine {msgSender : d.Account} (hsender : d.IsUser msgSender) (c : DSCEngine.Call) :
    Quiet (.engine msgSender c) :=
  ⟨fun _ _ hactor => Option.some.inj hactor ▸ hsender, fun _ _ _ => rfl, rfl⟩

def erc20Action (t : Address) (msgSender : d.Account) (c : ERC20Call) : Action d :=
  if h : t = d.dsc then .dsc msgSender (.erc20 c) else .token ⟨t, h⟩ msgSender c

def Passing (t : Address) (a : Action d) : Prop :=
  ∃ msgSender c, a = erc20Action t msgSender c ∧ d.IsUser msgSender ∧
    ∀ x ∈ d.contracts, c.sentTo x = 0

theorem Passing.quiet (h : Passing t a) : Quiet a := by
  obtain ⟨msgSender, c, rfl, hsender, hsent⟩ := h
  unfold erc20Action
  split
  · refine ⟨fun _ _ hactor => Option.some.inj hactor ▸ hsender, fun t' x hx => ?_, rfl⟩
    simp [sendsTo, hsent x hx]
  · refine ⟨fun _ _ hactor => Option.some.inj hactor ▸ hsender, fun t' x hx => ?_, rfl⟩
    simp [sendsTo, hsent x hx]

theorem step_erc20Action {msgSender : d.Account} {c : ERC20Call} {b : Bool} {k : ERC20}
    (h : d.Sound w) (hrun : c.run (ε := Revert) msgSender (w.token t) = .ok (b, k)) :
    d.step w (erc20Action t msgSender c) = w.setToken t k := by
  unfold erc20Action
  split
  · next hdsc =>
      have ht : t = w.i_dsc := hdsc.trans h.dsc_eq.symm
      subst ht
      have hok : callDsc (DecentralizedStableCoin.Call.run msgSender (.erc20 c)) w =
          .ok ((), w.setToken w.i_dsc k) := by
        apply callDsc_eq_ok.mpr
        exact ⟨⟨k, w.dscOwner⟩, except_bind_eq_ok.mpr ⟨(b, k), hrun, rfl⟩, rfl⟩
      exact Tx.attempt_of_ok hok
  · next hne =>
      have hok : (Action.token ⟨t, hne⟩ msgSender c).tx w = .ok ((), w.setToken t k) :=
        tx_token_eq_ok.mpr ⟨b, k, hrun, rfl⟩
      exact Tx.attempt_of_ok hok

/-! ## Passing a token on -/

/-- In `k` the contracts hold, and the supply is, what they do and it is in `k'`. -/
def SameStock (d : Deployment) (k' k : ERC20) : Prop :=
  (∀ c ∈ d.contracts, k._balances c = k'._balances c) ∧ k._totalSupply = k'._totalSupply

theorem SameStock.trans {k k' k'' : ERC20} (h : d.SameStock k k') (h' : d.SameStock k' k'') :
    d.SameStock k k'' :=
  ⟨fun c hc => (h'.1 c hc).trans (h.1 c hc), h'.2.trans h.2⟩

theorem send_all (h : d.Sound w) {holder collector : Address} (hholder : holder ∉ d.contracts)
    (hcollector : d.IsUser collector) (hbalance : (w.token t)._balances holder ≠ 0) :
    let k := (w.token t).move holder collector ((w.token t)._balances holder)
    Machine.Leads d.step (Passing t) w (w.setToken t k) ∧ d.SameStock (w.token t) k := by
  have hzero : holder ≠ 0 := (h.tokens.wellFormed t).ne_zero_of_balance
    (Nat.pos_of_ne_zero fun hnone => hbalance (toNat_eq_zero.mp hnone))
  have huser : d.IsUser holder := ⟨hzero, hholder⟩
  let amount := (w.token t)._balances holder
  let account : d.Account := ⟨holder, huser.ne_engine⟩
  have hrun : (ERC20Call.transfer collector amount).run (ε := Revert) account (w.token t) =
      .ok (true, (w.token t).move holder collector amount) :=
    ERC20.transfer_eq_ok.mpr ⟨⟨hzero, hcollector.ne_zero, le_rfl⟩, rfl⟩
  have hpassing : Passing t (erc20Action t account (.transfer collector amount)) :=
    ⟨account, _, rfl, huser, fun x hx =>
      if_neg (ne_of_mem_of_not_mem hx hcollector.not_mem).symm⟩
  refine ⟨step_erc20Action h hrun ▸ .single hpassing, fun c hc => ?_, rfl⟩
  have hc₁ : c ≠ holder := ne_of_mem_of_not_mem hc hholder
  have hc₂ : c ≠ collector := ne_of_mem_of_not_mem hc hcollector.not_mem
  simp [ERC20.move, shift, hc₁, hc₂]

/-- **All of a token that is not stuck can be sent to one user.** -/
theorem gather (t : Address) (h : d.Sound w) {collector : Address}
    (hcollector : d.IsUser collector) :
    ∃ k, Machine.Leads d.step (Passing t) w (w.setToken t k) ∧ d.SameStock (w.token t) k ∧
      (k._balances collector).toNat + d.stuck t w = k._totalSupply.toNat := by
  let I (s : World) : Prop :=
    d.Sound s ∧ ∃ k, s = w.setToken t k ∧ d.SameStock (w.token t) k
  let done (s : World) (v : Address) : Prop :=
    v = collector ∨ v ∈ d.contracts ∨ (s.token t)._balances v = 0
  have hsend : ∀ s v, I s → ¬done s v → ∃ s', Machine.Leads d.step (Passing t) s s' ∧ I s' ∧
      done s' v ∧ ∀ j, done s j → done s' j := by
    rintro s v ⟨hs, k, rfl, hstock⟩ hv
    obtain ⟨hother, hholder, hbalance⟩ : v ≠ collector ∧ v ∉ d.contracts ∧
        ((w.setToken t k).token t)._balances v ≠ 0 := by simpa [done] using hv
    obtain ⟨hlead, hstock'⟩ := send_all hs hholder hcollector hbalance
    rw [setToken_setToken, setToken_token_self] at hlead
    rw [setToken_token_self] at hstock' hbalance
    refine ⟨_, hlead, ⟨hlead.invariant (fun _ a h _ => sound_step h a) hs, _, rfl,
      hstock.trans hstock'⟩, ?_, ?_⟩
    · refine .inr (.inr ?_)
      simp [ERC20.move, shift, hother]
    · rintro j (hj | hj | hj)
      · exact .inl hj
      · exact .inr (.inl hj)
      · by_cases hjc : j = collector
        · exact .inl hjc
        · rw [setToken_token_self] at hj
          have hjv : j ≠ v := fun heq => hbalance (heq ▸ hj)
          refine .inr (.inr ?_)
          simp [ERC20.move, shift, hjc, hjv, hj]
  have hstart : I w := ⟨h, w.token t, (setToken_self t w).symm, fun _ _ => rfl, rfl⟩
  obtain ⟨w', hlead, ⟨hw', k, rfl, hstock⟩, hdone⟩ := Machine.Leads.sweep hsend hstart
  refine ⟨k, hlead, hstock, ?_⟩
  have hwell := hw'.tokens.wellFormed t
  rw [setToken_token_self] at hwell
  -- only the collector and the contracts have any left
  have hothers : ∀ v ∉ insert collector d.contracts, (k._balances v).toNat = 0 := by
    intro v hv
    obtain ⟨hv₁, hv₂⟩ := not_or.mp (mt Finset.mem_insert.mpr hv)
    have hnone := ((hdone v).resolve_left hv₁).resolve_left hv₂
    rw [setToken_token_self] at hnone
    exact toNat_eq_zero.mpr hnone
  have hstuck : d.stuck t w = ∑ c ∈ d.contracts, (k._balances c).toNat :=
    Finset.sum_congr rfl fun c hc => congrArg BitVec.toNat (hstock.1 c hc).symm
  have hsum : ∑ v ∈ insert collector d.contracts, (k._balances v).toNat =
      (k._balances collector).toNat + ∑ c ∈ d.contracts, (k._balances c).toNat :=
    Finset.sum_insert hcollector.not_mem
  rw [hstuck, ← hsum, ← hwell.supply_eq]
  exact Finset.sum_subset (Finset.subset_univ _) fun v _ hv => hothers v hv

/-- **Where enough of a token is not stuck, a user can come to hold and approve some of it.** -/
theorem fund (t : Address) (h : d.Sound w) (account : d.Account) (huser : d.IsUser account)
    {amount : UInt256}
    (hcover : d.stuck t w + amount.toNat ≤ (w.token t)._totalSupply.toNat) :
    ∃ k, Machine.Leads d.step (Passing t) w (w.setToken t k) ∧
      amount.toNat ≤ (k._balances account).toNat ∧ k._allowances account d.dscEngine = amount := by
  obtain ⟨k, hlead, hstock, hall⟩ := gather t h huser
  have hsound : d.Sound (w.setToken t k) := hlead.invariant (fun _ a h _ => sound_step h a) h
  have hrun : (ERC20Call.approve d.dscEngine amount).run (ε := Revert) account
      ((w.setToken t k).token t) = .ok (true, k.allow account d.dscEngine amount) := by
    rw [setToken_token_self]
    exact ERC20.approve_eq_ok.mpr ⟨huser.ne_zero, d.dscEngine_ne_zero, rfl⟩
  let a : Action d := erc20Action t account (.approve d.dscEngine amount)
  have hlead' : Machine.Leads d.step (Passing t) w (d.step (w.setToken t k) a) :=
    hlead.trans (.single ⟨account, _, rfl, huser, fun _ _ => rfl⟩)
  rw [step_erc20Action hsound hrun, setToken_setToken] at hlead'
  refine ⟨_, hlead', ?_, by simp [ERC20.allow]⟩
  have hsupply := congrArg BitVec.toNat hstock.2
  rw [ERC20.allow_balances]
  omega

end DefiStablecoin.Deployment
