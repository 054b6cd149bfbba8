import DefiStablecoin.Fuzz.Handler
import DefiStablecoin.Properties.Minting
import DefiStablecoin.Properties.Solvency

/-!
# Fuzzing campaigns

What the fuzzer can do to the deployed system through the handler.  Every call of
the handler that returns is a row of actions of the system, so the system's
invariants hold throughout a campaign.
-/

namespace DefiStablecoin.Fuzz

open Solidity OpenZeppelin ForgeStd World DSCEngine Deployment

/-- A deployment that the tests can be set up on: two collateral tokens, both with
a price that the engine can use. -/
structure Bench extends Deployment where
  handler : toDeployment.Account
  weth : Address
  wbtc : Address
  tokens_eq : s_tokenAddresses = [weth, wbtc]
  feed_ne_zero : ∀ t ∈ s_tokenAddresses, toDeployment.genesis.s_priceFeeds t ≠ 0
  quoted : ∀ t ∈ s_tokenAddresses, toDeployment.genesis.market.Quoted t

namespace Bench

variable (b : Bench)

/-- The fuzzer calls from accounts that are none of the contracts that the engine knows. -/
structure IsSender (account : Address) : Prop where
  ne_zero : account ≠ 0
  ne_dscEngine : account ≠ b.dscEngine
  not_mem : account ∉ b.s_tokenAddresses

abbrev Sender := { account : Address // b.IsSender account }

def start : Campaign := ⟨b.genesis, ⟨b.handler, b.weth, b.wbtc, 0, []⟩⟩

theorem setUp_eq_ok : setUp b.toDeployment b.handler = .ok b.start := by
  have htokens : getCollateralTokens b.genesis = [b.weth, b.wbtc] := b.tokens_eq
  simp only [setUp, except_bind_eq_ok, except_pure_eq_ok, Handler.constructor]
  refine ⟨b.genesis, b.deploy_eq_ok, _, ?_, rfl⟩
  rw [htokens]

def step (s : Campaign) (c : b.Sender × Handler.Call) : Campaign :=
  Tx.attempt (c.2.run c.1) s

def play (calls : List (b.Sender × Handler.Call)) : Campaign := Machine.run b.step b.start calls

end Bench

/-! ## What the handler does to the system -/

def Playable (d : Deployment) : Action d → Prop
  | .engine _ (.depositCollateral _ _) => True
  | .engine _ (.mintDsc _) => True
  | .token _ _ (.approve _ _) => True
  | .issueToken _ account _ => account ≠ d.dscEngine
  | _ => False

def Played (d : Deployment) (w : World) : Prop :=
  ∃ actions, (∀ a ∈ actions, Playable d a) ∧ w = d.run actions

section Played

variable {d : Deployment} {w w' : World} {a : Action d} {u : Unit}

theorem Playable.keepsAnswers (h : Playable d a) : d.KeepsAnswers a := by
  cases a with
  | oracle feed => exact h.elim
  | _ => trivial

theorem Playable.sends_eq_zero (h : Playable d a) (t : Address) : sends t a = 0 := by
  cases a with
  | dsc msgSender c => exact h.elim
  | token token msgSender c =>
      cases c with
      | approve spender amount => simp [sends, sendsTo, ERC20Call.sentTo]
      | _ => exact h.elim
  | issueToken token account amount =>
      have hne : account ≠ d.dscEngine := h
      simp [sends, sendsTo, hne]
  | _ => rfl

theorem Playable.burns_eq_zero (h : Playable d a) : burns a = 0 := by
  cases a with
  | dsc msgSender c => exact h.elim
  | _ => rfl

namespace Played

theorem genesis (d : Deployment) : Played d d.genesis :=
  ⟨[], fun _ ha => absurd ha List.not_mem_nil, rfl⟩

theorem tx (h : Played d w) (ha : Playable d a) (hok : a.tx w = .ok (u, w')) : Played d w' := by
  obtain ⟨actions, hplayable, hw⟩ := h
  refine ⟨actions ++ [a], fun x hx => ?_, ?_⟩
  · rcases List.mem_append.mp hx with hx | hx
    · exact hplayable x hx
    · rw [List.mem_singleton.mp hx]
      exact ha
  · unfold Deployment.run at hw ⊢
    rw [Machine.run_append, ← hw]
    exact (Tx.attempt_of_ok hok).symm

theorem covered (h : Played d w) : d.Covered w := by
  obtain ⟨actions, hplayable, rfl⟩ := h
  exact covered_run fun a ha => (hplayable a ha).keepsAnswers

theorem sound (h : Played d w) : d.Sound w := h.covered.sound

theorem solvent (h : Played d w) :
    2 * w.supply ≤ d.genesis.market.terms.value w.holdings := by
  obtain ⟨actions, hplayable, rfl⟩ := h
  exact solvent_of_covered (covered_run fun a ha => (hplayable a ha).keepsAnswers)

theorem holdings_eq (h : Played d w) (t : Address) :
    w.holdings t = w.deposits t + d.genesis.holdings t := by
  obtain ⟨actions, hplayable, rfl⟩ := h
  have hcharge : Machine.charge d.step (whenReturns (sends t)) d.genesis actions = 0 :=
    Machine.charge_eq_zero.mpr (Machine.along_of_forall_mem fun a ha _ =>
      whenReturns_eq_zero ((hplayable a ha).sends_eq_zero t))
  rw [d.holdings_run actions t, sentDirectly, hcharge]
  rfl

theorem debts_eq (h : Played d w) : w.debts = w.supply := by
  obtain ⟨actions, hplayable, rfl⟩ := h
  have hcharge : Machine.charge d.step (whenReturns burns) d.genesis actions = 0 :=
    Machine.charge_eq_zero.mpr (Machine.along_of_forall_mem fun a ha _ =>
      whenReturns_eq_zero (hplayable a ha).burns_eq_zero)
  rw [d.debts_run actions, burnedDirectly, hcharge, Nat.add_zero]

end Played

end Played

/-! ## The handler's functions -/

namespace Handler

variable {s s' : Campaign} {msgSender : Address} {seed amount : UInt256}

theorem depositCollateral_eq_ok :
    depositCollateral msgSender seed amount s = .ok ((), s') ↔
      ∃ a, _bound (ε := Revert) amount 1 MAX_DEPOSITE_SIZE = .ok a ∧
        ∃ success w₁, issueToken (_getCollateralFromSeed seed s.handler) msgSender a s.world =
          .ok (success, w₁) ∧
        ∃ success w₂, callToken (_getCollateralFromSeed seed s.handler)
          (ERC20.approve msgSender s.world.this a) w₁ = .ok (success, w₂) ∧
        ∃ w₃, DSCEngine.depositCollateral IERC20.standard msgSender
          (_getCollateralFromSeed seed s.handler) a w₂ = .ok ((), w₃) ∧
        s' = ⟨w₃, { s.handler with
          userWithCollateralDeposited :=
            s.handler.userWithCollateralDeposited ++ [msgSender] }⟩ := by
  simp only [depositCollateral, Tx.bind_eq_ok, Tx.read_eq_ok, Tx.view_eq_ok, Campaign.call_eq_ok,
    Tx.store_eq_ok, Prod.mk.injEq]
  constructor
  · rintro ⟨_, _, ⟨rfl, rfl⟩, a, _, ⟨hbound, rfl⟩, _, _, ⟨rfl, rfl⟩, success, _, ⟨w₁, hissue, rfl⟩,
      success', _, ⟨w₂, happrove, rfl⟩, _, _, ⟨w₃, hdeposit, rfl⟩, rfl⟩
    exact ⟨a, hbound, success, w₁, hissue, success', w₂, happrove, w₃, hdeposit, rfl⟩
  · rintro ⟨a, hbound, success, w₁, hissue, success', w₂, happrove, w₃, hdeposit, rfl⟩
    exact ⟨_, _, ⟨rfl, rfl⟩, a, _, ⟨hbound, rfl⟩, _, _, ⟨rfl, rfl⟩, success, _, ⟨w₁, hissue, rfl⟩,
      success', _, ⟨w₂, happrove, rfl⟩, (), _, ⟨w₃, hdeposit, rfl⟩, rfl⟩

theorem pickUser_mem (seed : UInt256) (user : Address) (users : List Address) :
    pickUser seed user users ∈ user :: users := List.get_mem _ _

theorem bounded {x min max a : UInt256} (hle : min ≤ max)
    (h : _bound (ε := Revert) x min max = .ok a) :
    min.toNat ≤ a.toNat ∧ a.toNat ≤ max.toNat := by
  obtain ⟨r, hr, hwraps, _⟩ := _bound_returns (ε := Revert) (x := x) hle
  rw [hr] at h
  cases h
  exact ⟨hwraps.min_le, hwraps.le_max⟩

theorem mintDsc_nil (h : s.handler.userWithCollateralDeposited = []) :
    mintDsc amount seed s = .ok ((), s') ↔ s' = s := by
  simp only [mintDsc, Tx.bind_eq_ok, Tx.read_eq_ok, Prod.mk.injEq]
  constructor
  · rintro ⟨_, _, ⟨rfl, rfl⟩, hrest⟩
    rw [h] at hrest
    exact congrArg Prod.snd (Tx.pure_eq_ok.mp hrest)
  · rintro rfl
    refine ⟨s'.handler.userWithCollateralDeposited, s', ⟨rfl, rfl⟩, ?_⟩
    rw [h]
    rfl

theorem mintDsc_cons {user : Address} {users : List Address}
    (h : s.handler.userWithCollateralDeposited = user :: users) :
    mintDsc amount seed s = .ok ((), s') ↔
      mintFor (pickUser seed user users) amount s = .ok ((), s') := by
  simp only [mintDsc, Tx.bind_eq_ok, Tx.read_eq_ok, Prod.mk.injEq]
  constructor
  · rintro ⟨_, _, ⟨rfl, rfl⟩, hrest⟩
    rw [h] at hrest
    exact hrest
  · intro hrest
    refine ⟨s.handler.userWithCollateralDeposited, s, ⟨rfl, rfl⟩, ?_⟩
    rw [h]
    exact hrest

theorem mintFor_eq_ok {sender : Address} :
    mintFor sender amount s = .ok ((), s') ↔
      ∃ debt value, getAccountInformation sender s.world = .ok (debt, value) ∧
        ∃ left, checkedSubInt (value.sdiv 2) debt = .ok left ∧
          ((left.toInt < 0 ∧ s' = s) ∨
            (¬left.toInt < 0 ∧ ∃ a, _bound (ε := Revert) amount 0 left = .ok a ∧
              ((a = 0 ∧ s' = s) ∨
                (a ≠ 0 ∧ ∃ w', DSCEngine.mintDsc sender a s.world = .ok ((), w') ∧
                  s.handler.timesMintIsCalled.toNat + 1 < 2 ^ 256 ∧
                  s' = ⟨w', { s.handler with
                    timesMintIsCalled := s.handler.timesMintIsCalled + 1 }⟩)))) := by
  have hone : (1 : UInt256).toNat = 1 := rfl
  simp only [mintFor, Tx.bind_eq_ok, Tx.ite_eq_ok, Campaign.call_eq_ok, Tx.view_eq_ok,
    Tx.pure_eq_ok, Tx.update_eq_ok, Prod.mk.injEq, true_and, except_bind_eq_ok, checkedAdd_eq_ok,
    except_pure_eq_ok, hone]
  constructor
  · rintro ⟨⟨debt, value⟩, _, ⟨_, ⟨hinfo, rfl⟩, rfl⟩, left, _, ⟨hleft, rfl⟩, hrest⟩
    refine ⟨debt, value, hinfo, left, hleft, ?_⟩
    rcases hrest with hidle | ⟨hnonneg, a, _, ⟨hbound, rfl⟩, hrest⟩
    · exact .inl hidle
    refine .inr ⟨hnonneg, a, hbound, ?_⟩
    rcases hrest with hidle | ⟨hpos, _, _, ⟨w', hmint, rfl⟩, _, ⟨hcount, rfl⟩, rfl⟩
    · exact .inl hidle
    · exact .inr ⟨hpos, w', hmint, hcount, rfl⟩
  · rintro ⟨debt, value, hinfo, left, hleft, hrest⟩
    refine ⟨(debt, value), s, ⟨s.world, ⟨hinfo, rfl⟩, rfl⟩, left, s, ⟨hleft, rfl⟩, ?_⟩
    rcases hrest with hidle | ⟨hnonneg, a, hbound, hrest⟩
    · exact .inl hidle
    refine .inr ⟨hnonneg, a, s, ⟨hbound, rfl⟩, ?_⟩
    rcases hrest with hidle | ⟨hpos, w', hmint, hcount, rfl⟩
    · exact .inl hidle
    · exact .inr ⟨hpos, (), _, ⟨w', hmint, rfl⟩, _, ⟨hcount, rfl⟩, rfl⟩

end Handler

/-! ## Reached states -/

/-- The collateral of a deposit is issued to the user, who approves the engine for it. -/
def prepared (user token : Address) (amount : UInt256) (w : World) : World :=
  w.setToken token (((w.token token).issue user amount).allow user w.this amount)

def funded (user token : Address) (amount : UInt256) (w : World) : World :=
  deposited user token amount (prepared user token amount w)

section Funded

variable {w w' : World} {user token t : Address} {amount : UInt256} {success : Bool}

theorem prepared_eq_ok :
    (∃ success w₁, issueToken token user amount w = .ok (success, w₁) ∧
      ∃ success, callToken token (ERC20.approve user w.this amount) w₁ = .ok (success, w')) ↔
      user ≠ 0 ∧ w.this ≠ 0 ∧ (w.token token)._totalSupply.toNat + amount.toNat < 2 ^ 256 ∧
        w' = prepared user token amount w := by
  simp only [issueToken_eq_ok, callToken_eq_ok, ERC20.approve_eq_ok, Prod.mk.injEq]
  constructor
  · rintro ⟨_, _, ⟨hne, hfits, rfl, rfl⟩, _, k, ⟨_, hthis, rfl, rfl⟩, rfl⟩
    refine ⟨hne, hthis, hfits, ?_⟩
    rw [setToken_setToken, setToken_token_self]
    rfl
  · rintro ⟨hne, hthis, hfits, rfl⟩
    refine ⟨_, _, ⟨hne, hfits, rfl, rfl⟩, _, _, ⟨hne, hthis, rfl, rfl⟩, ?_⟩
    rw [setToken_setToken, setToken_token_self]
    rfl

theorem canCollect_prepared (hk : (w.token token).WellFormed) (huser : user ≠ 0)
    (hthis : w.this ≠ 0)
    (hfits : (w.token token)._totalSupply.toNat + amount.toNat < 2 ^ 256) :
    (prepared user token amount w).CanCollect token w.this user amount := by
  have hwallet := hk.balance_le_supply user
  have hbalance := BitVec.toNat_add_of_lt
    (x := (w.token token)._balances user) (y := amount) (by omega)
  constructor
  · right
    simp [prepared, setToken, ERC20.allow, huser, hthis]
  · refine ⟨huser, hthis, ?_⟩
    simp only [prepared, setToken, ERC20.allow, ERC20.issue, Function.update_self, hbalance]
    omega

theorem funded_token_of_ne (ht : t ≠ token) : (funded user token amount w).token t = w.token t := by
  simp [funded, prepared, deposited, credit, collect, setCollateral, setToken, ht]

theorem funded_totalSupply :
    ((funded user token amount w).token token)._totalSupply =
      (w.token token)._totalSupply + amount := by
  simp [funded, prepared, deposited, credit, collect, setCollateral, setToken, ERC20.issue,
    ERC20.allow]

theorem book_funded
    (hfits : (w.s_collateralDeposited user token).toNat + amount.toNat < 2 ^ 256) :
    (funded user token amount w).book = w.book.deposit user token amount.toNat :=
  book_credit (w := prepared user token amount w) hfits

theorem funded_deposited_of_ne {u : Address} (hu : u ≠ user) :
    (funded user token amount w).s_collateralDeposited u = w.s_collateralDeposited u := by
  simp [funded, prepared, deposited, credit, collect, setCollateral, setToken, hu]

end Funded

namespace Bench

structure Reached (b : Bench) (n : ℕ) (s : Campaign) : Prop where
  played : Played b.toDeployment s.world
  feed_eq : s.world.feed = b.feed
  timestamp_eq : s.world.timestamp = b.timestamp
  weth_eq : s.handler.weth = b.weth
  wbtc_eq : s.handler.wbtc = b.wbtc
  users : ∀ u ∈ s.handler.userWithCollateralDeposited, b.IsSender u
  outside : ∀ t ∈ b.s_tokenAddresses, ∀ x, s.world.s_collateralDeposited t x = 0
  supply_le : ∀ t ∈ b.s_tokenAddresses,
    (s.world.token t)._totalSupply.toNat ≤
      (b.token t)._totalSupply.toNat + n * Handler.MAX_DEPOSITE_SIZE.toNat
  times_le : s.handler.timesMintIsCalled.toNat ≤ n

variable {b : Bench} {n : ℕ} {s s' : Campaign} {seed amount : UInt256} {t sender : Address}

theorem ne_dsc_of_mem (ht : t ∈ b.s_tokenAddresses) : t ≠ b.dsc :=
  ne_of_mem_of_not_mem ht b.dsc_not_mem

theorem reached_start : b.Reached 0 b.start where
  played := Played.genesis _
  feed_eq := rfl
  timestamp_eq := rfl
  weth_eq := rfl
  wbtc_eq := rfl
  users _ hu := absurd hu List.not_mem_nil
  outside _ _ _ := rfl
  supply_le t ht := by
    have hsame : b.start.world.token t = b.token t :=
      Function.update_of_ne (ne_dsc_of_mem ht) _ _
    rw [hsame]
    omega
  times_le := le_rfl

/-- What a call through the handler can do: nothing, a deposit of fresh collateral by
its caller, or a mint for somebody who deposited. -/
inductive Effect (b : Bench) (s : Campaign) : Campaign → Prop where
  | idle : Effect b s s
  | deposit {sender t : Address} {amount : UInt256} (hsender : b.IsSender sender)
      (hmem : t ∈ b.s_tokenAddresses) (hmax : amount.toNat ≤ Handler.MAX_DEPOSITE_SIZE.toNat)
      (hfits : (s.world.token t)._totalSupply.toNat + amount.toNat < 2 ^ 256) :
      Effect b s ⟨funded sender t amount s.world, { s.handler with
        userWithCollateralDeposited := s.handler.userWithCollateralDeposited ++ [sender] }⟩
  | mint {user : Address} {amount : UInt256} (hpos : amount ≠ 0)
      (hdebt : (s.world.s_DSCMinted user).toNat + amount.toNat < 2 ^ 256)
      (hsupply : s.world.supply + amount.toNat < 2 ^ 256)
      (hcount : s.handler.timesMintIsCalled.toNat + 1 < 2 ^ 256) :
      Effect b s ⟨minted user amount s.world, { s.handler with
        timesMintIsCalled := s.handler.timesMintIsCalled + 1 }⟩

namespace Reached

theorem sound (h : b.Reached n s) : b.Sound s.world := h.played.sound

theorem collateral_mem (h : b.Reached n s) (seed : UInt256) :
    Handler._getCollateralFromSeed seed s.handler ∈ b.s_tokenAddresses := by
  rw [b.tokens_eq, Handler._getCollateralFromSeed, h.weth_eq, h.wbtc_eq]
  split <;> simp

theorem deposited_le (h : b.Reached n s) (user token : Address) :
    (s.world.s_collateralDeposited user token).toNat ≤
      (s.world.token token)._totalSupply.toNat := by
  have hdeposits := collateral_le_deposits s.world user token
  have hheld := h.played.holdings_eq token
  have hsupply := (h.sound.tokens.wellFormed token).balance_le_supply s.world.this
  have hholdings : s.world.holdings token = ((s.world.token token)._balances s.world.this).toNat :=
    rfl
  omega

/-! ## What one call does -/

variable (h : b.Reached n s)

include h

section Deposit

variable (hsender : b.IsSender sender)

include hsender

/-- The handler's deposit fails only when the supply of the token would overflow. -/
theorem depositCollateral_eq_ok :
    Handler.depositCollateral sender seed amount s = .ok ((), s') ↔
      ∃ a, _bound (ε := Revert) amount 1 Handler.MAX_DEPOSITE_SIZE = .ok a ∧
        (s.world.token (Handler._getCollateralFromSeed seed s.handler))._totalSupply.toNat +
          a.toNat < 2 ^ 256 ∧
        s' = ⟨funded sender (Handler._getCollateralFromSeed seed s.handler) a s.world,
          { s.handler with
            userWithCollateralDeposited :=
              s.handler.userWithCollateralDeposited ++ [sender] }⟩ := by
  have hmem := h.collateral_mem seed
  rw [Handler.depositCollateral_eq_ok]
  generalize Handler._getCollateralFromSeed seed s.handler = collateral at hmem ⊢
  have hstatus : ∀ a, (prepared sender collateral a s.world)._status = _NOT_ENTERED :=
    fun _ => h.sound.status_eq
  constructor
  · rintro ⟨a, hbound, _, w₁, hissue, _, w₂, happrove, w₃, hdeposit, rfl⟩
    obtain ⟨_, _, hfits, rfl⟩ := prepared_eq_ok.mp ⟨_, _, hissue, _, happrove⟩
    obtain ⟨_, _, _, _, rfl⟩ := (depositCollateral_standard_eq_ok (hstatus a)).mp hdeposit
    exact ⟨a, hbound, hfits, rfl⟩
  · rintro ⟨a, hbound, hfits, rfl⟩
    obtain ⟨_, w₁, hissue, _, happrove⟩ :=
      prepared_eq_ok.mpr ⟨hsender.ne_zero, h.sound.this_ne_zero, hfits, rfl⟩
    refine ⟨a, hbound, _, w₁, hissue, _, _, happrove, _, ?_, rfl⟩
    have hpos : a ≠ 0 :=
      ne_zero_of_toNat_pos (Handler.bounded Handler.one_le_MAX_DEPOSITE_SIZE hbound).1
    have hfeed : s.world.s_priceFeeds collateral ≠ 0 := by
      rw [h.sound.priceFeeds_eq]
      exact b.feed_ne_zero collateral hmem
    have hdeposited : (s.world.s_collateralDeposited sender collateral).toNat + a.toNat <
        2 ^ 256 := by
      have hle := h.deposited_le sender collateral
      omega
    exact (depositCollateral_standard_eq_ok (hstatus a)).mpr ⟨hpos, hfeed, hdeposited,
      canCollect_prepared (h.sound.tokens.wellFormed collateral) hsender.ne_zero
        h.sound.this_ne_zero hfits, rfl⟩

theorem played_depositCollateral
    (hok : Handler.depositCollateral sender seed amount s = .ok ((), s')) :
    Played b.toDeployment s'.world := by
  let account : b.Account := ⟨sender, hsender.ne_dscEngine⟩
  let token : b.Token :=
    ⟨Handler._getCollateralFromSeed seed s.handler, ne_dsc_of_mem (h.collateral_mem seed)⟩
  obtain ⟨a, _, _, w₁, hissue, _, w₂, happrove, w₃, hdeposit, rfl⟩ :=
    Handler.depositCollateral_eq_ok.mp hok
  have hissued : Played b.toDeployment w₁ := by
    apply h.played.tx (a := .issueToken token sender a) (u := ()) hsender.ne_dscEngine
    exact Tx.bind_eq_ok.mpr ⟨_, _, hissue, rfl⟩
  have happroved : Played b.toDeployment w₂ := by
    apply hissued.tx (a := .token token account (.approve s.world.this a)) (u := ()) trivial
    exact Tx.bind_eq_ok.mpr ⟨_, _, happrove, rfl⟩
  exact happroved.tx (a := .engine account (.depositCollateral token a)) trivial hdeposit

theorem depositCollateral_effect
    (hok : Handler.depositCollateral sender seed amount s = .ok ((), s')) : b.Effect s s' := by
  obtain ⟨a, hbound, hfits, rfl⟩ := (h.depositCollateral_eq_ok hsender).mp hok
  have hmax := (Handler.bounded Handler.one_le_MAX_DEPOSITE_SIZE hbound).2
  exact .deposit hsender (h.collateral_mem seed) hmax hfits

end Deposit

theorem pickUser_isSender {user : Address} {users : List Address}
    (husers : s.handler.userWithCollateralDeposited = user :: users) (seed : UInt256) :
    b.IsSender (Handler.pickUser seed user users) := by
  apply h.users
  rw [husers]
  exact Handler.pickUser_mem ..

/-- A mint through the handler is one action of the system, or none. -/
theorem mintDsc_effect (hok : Handler.mintDsc amount seed s = .ok ((), s')) :
    Played b.toDeployment s'.world ∧ b.Effect s s' := by
  cases husers : s.handler.userWithCollateralDeposited with
  | nil =>
      rw [(Handler.mintDsc_nil husers).mp hok]
      exact ⟨h.played, .idle⟩
  | cons user users =>
      have hpicked := h.pickUser_isSender husers seed
      obtain ⟨_, _, _, _, _, ⟨_, rfl⟩ | ⟨_, a, _, ⟨_, rfl⟩ | ⟨_, w', hmint, hcount, rfl⟩⟩⟩ :=
        Handler.mintFor_eq_ok.mp ((Handler.mintDsc_cons husers).mp hok)
      · exact ⟨h.played, .idle⟩
      · exact ⟨h.played, .idle⟩
      · have hplayed : Played b.toDeployment w' :=
          h.played.tx (a := .engine ⟨_, hpicked.ne_dscEngine⟩ (.mintDsc a)) trivial hmint
        obtain ⟨hpos, hdebt, _, _, hissue, rfl⟩ := (mintDsc_open_eq_ok h.sound.status_eq).mp hmint
        exact ⟨hplayed, .mint hpos hdebt hissue.2.2.2 hcount⟩

/-- The handler looks up what the token itself deposited of its caller, which is nothing. -/
theorem redeemCollateral_eq_ok :
    Handler.redeemCollateral sender seed amount s = .ok ((), s') ↔ s' = s := by
  have hnothing : getCollateralBalanceOfUser (Handler._getCollateralFromSeed seed s.handler)
      sender s.world = 0 := h.outside _ (h.collateral_mem seed) sender
  simp only [Handler.redeemCollateral, Tx.bind_eq_ok, Tx.read_eq_ok, Tx.view_eq_ok, Prod.mk.injEq]
  constructor
  · rintro ⟨_, _, ⟨rfl, rfl⟩, _, _, ⟨rfl, rfl⟩, a, _, ⟨hbound, rfl⟩, hrest⟩
    rw [hnothing, _bound_self] at hbound
    cases hbound
    exact congrArg Prod.snd (Tx.pure_eq_ok.mp hrest)
  · rintro rfl
    refine ⟨_, _, ⟨rfl, rfl⟩, _, s', ⟨rfl, rfl⟩, 0, s', ⟨?_, rfl⟩, rfl⟩
    rw [hnothing, _bound_self]

theorem step_effect (c : b.Sender × Handler.Call) :
    Played b.toDeployment (b.step s c).world ∧ b.Effect s (b.step s c) := by
  obtain ⟨sender, c⟩ := c
  rcases Tx.attempt_cases (c.run sender) s with ⟨_, hok⟩ | ⟨_, hsame⟩
  · cases c with
    | mintDsc amount seed => exact h.mintDsc_effect hok
    | depositCollateral seed amount =>
        exact ⟨h.played_depositCollateral sender.property hok,
          h.depositCollateral_effect sender.property hok⟩
    | redeemCollateral seed amount =>
        have hidle : b.step s (sender, .redeemCollateral seed amount) = s :=
          h.redeemCollateral_eq_ok.mp hok
        rw [hidle]
        exact ⟨h.played, .idle⟩
  · have hidle : b.step s (sender, c) = s := hsame
    rw [hidle]
    exact ⟨h.played, .idle⟩

theorem of_effect (hplayed : Played b.toDeployment s'.world) (heffect : b.Effect s s') :
    b.Reached (n + 1) s' := by
  cases heffect with
  | idle =>
      exact { h with
        supply_le := fun t ht => (h.supply_le t ht).trans
          (Nat.add_le_add_left (Nat.mul_le_mul_right _ (Nat.le_succ n)) _)
        times_le := h.times_le.trans (Nat.le_succ n) }
  | @deposit sender collateral amount hsender hmem hmax hfits =>
      exact {
        played := hplayed
        feed_eq := h.feed_eq
        timestamp_eq := h.timestamp_eq
        weth_eq := h.weth_eq
        wbtc_eq := h.wbtc_eq
        users := by
          intro u hu
          rcases List.mem_append.mp hu with hu | hu
          · exact h.users u hu
          · rw [List.mem_singleton.mp hu]
            exact hsender
        outside := by
          intro t ht x
          have hne : t ≠ sender := ne_of_mem_of_not_mem ht hsender.not_mem
          rw [funded_deposited_of_ne hne]
          exact h.outside t ht x
        supply_le := by
          intro t ht
          have hle := h.supply_le t ht
          by_cases hsame : t = collateral
          · rw [hsame] at hle ⊢
            rw [funded_totalSupply, BitVec.toNat_add_of_lt hfits, Nat.add_mul]
            omega
          · rw [funded_token_of_ne hsame, Nat.add_mul]
            omega
        times_le := h.times_le.trans (Nat.le_succ n) }
  | @mint user amount hpos hdebt hsupply hcount =>
      exact {
        played := hplayed
        feed_eq := h.feed_eq
        timestamp_eq := h.timestamp_eq
        weth_eq := h.weth_eq
        wbtc_eq := h.wbtc_eq
        users := h.users
        outside := h.outside
        supply_le := by
          intro t ht
          have hne : t ≠ s.world.i_dsc := h.sound.dsc_eq ▸ ne_dsc_of_mem ht
          have hsame : (minted user amount s.world).token t = s.world.token t :=
            Function.update_of_ne hne _ _
          have hle := h.supply_le t ht
          rw [hsame, Nat.add_mul]
          omega
        times_le := by
          have hone : (1 : UInt256).toNat = 1 := rfl
          rw [BitVec.toNat_add_of_lt (by omega), hone]
          exact Nat.succ_le_succ h.times_le }

theorem step (c : b.Sender × Handler.Call) : b.Reached (n + 1) (b.step s c) := by
  obtain ⟨hplayed, heffect⟩ := h.step_effect c
  exact h.of_effect hplayed heffect

theorem run (calls : List (b.Sender × Handler.Call)) :
    b.Reached (n + calls.length) (Machine.run b.step s calls) := by
  induction calls generalizing n s with
  | nil => exact h
  | cons c calls ih =>
      have hrest := ih (h.step c)
      rw [Nat.add_right_comm, Nat.add_assoc] at hrest
      exact hrest

end Reached

theorem reached_play (calls : List (b.Sender × Handler.Call)) :
    b.Reached calls.length (b.play calls) := by
  have hrun := reached_start.run calls
  rwa [Nat.zero_add] at hrun

end Bench

end DefiStablecoin.Fuzz
