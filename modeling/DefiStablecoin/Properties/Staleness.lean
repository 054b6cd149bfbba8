import DefiStablecoin.Properties.Oracle
import DefiStablecoin.System.Network

/-!
# How long an answer counts

The engine's price is the last answer that the feed was told, for three hours.  Once
a feed has gone stale the system is frozen but for deposits, until that feed is updated.
-/

namespace DefiStablecoin.Deployment

open Solidity OpenZeppelin DSCEngine World OracleLib

variable {d : Deployment} {w w' : World} {a : Action d} {u : Unit} {token user : Address}

/-! ## Frozen while stale -/

def Stale (token : Address) (w : World) : Prop :=
  ∃ round, w.feed (w.s_priceFeeds token) = some round ∧
    round.updatedAt.toNat + TIMEOUT.toNat < w.timestamp.toNat

/-- Nobody updates the feed of the token, and time does not go back. -/
def Silent (token : Address) (w : World) : Action d → Prop
  | .oracle feed => feed (w.s_priceFeeds token) = w.feed (w.s_priceFeeds token)
  | .warp timestamp => w.timestamp ≤ timestamp
  | _ => True

def Acts (a : Action d) : Prop :=
  ∃ msgSender c, a = .engine msgSender c ∧ ∀ t amount, c ≠ .depositCollateral t amount

theorem stale_tx (h : d.Sound w) (hstale : Stale token w) (hsilent : Silent token w a)
    (hok : a.tx w = .ok (u, w')) : Stale token w' := by
  have hfeeds : w'.s_priceFeeds = w.s_priceFeeds :=
    (sound_tx h hok).priceFeeds_eq.trans h.priceFeeds_eq.symm
  obtain ⟨round, hround, hold⟩ := hstale
  unfold Stale
  rw [hfeeds]
  obtain ⟨hfeed, htime⟩ | ⟨feed, rfl, rfl⟩ | ⟨timestamp, rfl, rfl⟩ := surroundings_tx hok
  · rw [hfeed, htime]
    exact ⟨round, hround, hold⟩
  · have hsame : feed (w.s_priceFeeds token) = w.feed (w.s_priceFeeds token) := hsilent
    exact ⟨round, hsame.trans hround, hold⟩
  · have hforward : w.timestamp ≤ timestamp := hsilent
    exact ⟨round, hround, hold.trans_le (BitVec.le_def.mp hforward)⟩

theorem stale_step (h : d.Sound w) (hstale : Stale token w) (hsilent : Silent token w a) :
    Stale token (d.step w a) := by
  rcases Tx.attempt_cases a.tx w with ⟨_, hok⟩ | ⟨_, hsame⟩
  · exact stale_tx h hstale hsilent hok
  · rwa [step, hsame]

theorem reverts_of_stale (htoken : token ∈ w.s_collateralTokens) (hstale : Stale token w)
    (hacts : Acts a) : ¬Tx.Returns a.tx w := by
  obtain ⟨msgSender, c, rfl, hc⟩ := hacts
  obtain ⟨round, hround, hold⟩ := hstale
  rintro ⟨r, hok⟩
  have hquoted := run_quoted (fun _ => keepsMarket_standard) hc hok token htoken
  exact not_quoted_of_badRound hround (.inl hold) hquoted

/-- What stays as it is, or grows, while the system is frozen. -/
structure Frozen (w w' : World) : Prop where
  debt_eq : w'.s_DSCMinted = w.s_DSCMinted
  collateral_le : ∀ u t, w.s_collateralDeposited u t ≤ w'.s_collateralDeposited u t

theorem Frozen.refl (w : World) : Frozen w w :=
  ⟨rfl, fun _ _ => BitVec.le_def.mpr le_rfl⟩

theorem Frozen.trans {w'' : World} (h : Frozen w w') (h' : Frozen w' w'') : Frozen w w'' where
  debt_eq := h'.debt_eq.trans h.debt_eq
  collateral_le u t := BitVec.le_def.mpr
    ((BitVec.le_def.mp (h.collateral_le u t)).trans (BitVec.le_def.mp (h'.collateral_le u t)))

theorem frozen_tx (h : d.Sound w) (hacts : ¬Acts a) (hok : a.tx w = .ok (u, w')) :
    Frozen w w' := by
  have hsame : w'.book = w.book → Frozen w w' := by
    intro hbook
    refine ⟨?_, fun v t => BitVec.le_def.mpr ?_⟩
    · funext v
      exact BitVec.eq_of_toNat_eq (congrFun (congrArg Lending.Book.debt hbook) v)
    · exact (congrFun (congrFun (congrArg Lending.Book.collateral hbook) v) t).ge
  obtain ⟨msgSender, c, rfl⟩ | hbook := book_tx h hok
  · cases c with
    | depositCollateral t amount =>
        obtain ⟨_, _, hfits, _, rfl⟩ :=
          (depositCollateral_standard_eq_ok h.status_eq).mp hok
        refine ⟨rfl, fun v t' => BitVec.le_def.mpr ?_⟩
        have hbook : (deposited msgSender t amount w).book =
            w.book.deposit msgSender.val t amount.toNat := book_credit hfits
        have hle := w.book.le_deposit msgSender.val v t t' amount.toNat
        rw [← hbook] at hle
        exact hle
    | _ => exact absurd ⟨msgSender, _, rfl, fun _ _ => by simp⟩ hacts
  · exact hsame hbook

theorem frozen_step (h : d.Sound w) (htoken : token ∈ w.s_collateralTokens)
    (hstale : Stale token w) (a : Action d) : Frozen w (d.step w a) := by
  rcases Tx.attempt_cases a.tx w with ⟨u, hok⟩ | ⟨_, hsame⟩
  · by_cases hacts : Acts a
    · exact absurd ⟨_, hok⟩ (reverts_of_stale htoken hstale hacts)
    · exact frozen_tx h hacts hok
  · rw [step, hsame]
    exact .refl w

/-- **A stale feed freezes the system.** From a reachable state in which the feed of one
registered token is older than three hours, and for as long as nobody updates that
feed, no engine call but a plain deposit returns, whatever happens to the other feeds:
no debt changes, and no deposit falls. -/
theorem frozen_while_stale (d : Deployment) (actions more : List (Action d)) (token : Address)
    (htoken : token ∈ d.s_tokenAddresses) (hstale : Stale token (d.run actions))
    (hsilent : Machine.Along d.step (Silent token) (d.run actions) more) :
    Machine.Along d.step (fun w a => Acts a → ¬Tx.Returns a.tx w) (d.run actions) more ∧
      Frozen (d.run actions) (d.run (actions ++ more)) ∧
      Stale token (d.run (actions ++ more)) := by
  have hsound := d.sound_run actions
  unfold Deployment.run at hsound hstale hsilent ⊢
  rw [Machine.run_append]
  generalize Machine.run d.step d.genesis actions = w at hsound hstale hsilent
  induction more generalizing w with
  | nil => exact ⟨trivial, .refl w, hstale⟩
  | cons a more ih =>
      have hmem : token ∈ w.s_collateralTokens := hsound.collateralTokens_eq ▸ htoken
      obtain ⟨hrest, hfrozen, hend⟩ := ih (d.step w a) (sound_step hsound a)
        (stale_step hsound hstale hsilent.1) hsilent.2
      exact ⟨⟨reverts_of_stale hmem hstale, hrest⟩,
        (frozen_step hsound hmem hstale a).trans hfrozen, hend⟩

/-- Four hours later the borrower tries to repay, the other feed is updated, and the
borrower tries to redeem. -/
def afterFourHours : List (Action anvil) :=
  [.engine USER (.burnDsc (100 * 10 ^ 18)),
    .oracle fun f => if f = wbtcUsdPriceFeed then some ⟨2, 1, 14401, 14401, 2⟩ else anvil.feed f,
    .engine USER (.redeemCollateral weth 1)]

theorem frozen_while_stale_afterFourHours :
    let actions := openPosition USER (10 * 10 ^ 18) (100 * 10 ^ 18) ++ [.warp 14401]
    Machine.Along anvil.step (fun w a => Acts a → ¬Tx.Returns a.tx w) (anvil.run actions)
        afterFourHours ∧
      Frozen (anvil.run actions) (anvil.run (actions ++ afterFourHours)) ∧
      Stale weth (anvil.run (actions ++ afterFourHours)) := by
  apply frozen_while_stale
  · decide
  · exact ⟨mockRound (2000 * 10 ^ 8), rfl, by decide⟩
  · exact ⟨trivial, rfl, trivial, trivial⟩

end DefiStablecoin.Deployment

namespace DefiStablecoin.Network

open Solidity DSCEngine World Chainlink MockV3Aggregator
open OracleLib (TIMEOUT Fresh)
open Deployment (anvil weth wethUsdPriceFeed wbtcUsdPriceFeed)

/-! ## The last answer -/

def genesis (d : Deployment) (mock : Address → Option MockV3Aggregator)
    (hfeed : ∀ f, d.feed f = (mock f).map latestRoundData) : Network :=
  ⟨d.genesis, mock, hfeed⟩

/-- The newest entry of a feed that was constructed with an answer, after its calls. -/
def lastUpdate (timestamp : UInt256) (answer : Int256)
    (calls : List (UInt256 × MockV3Aggregator.Call)) :
    Update :=
  (Machine.run note (⟨1, answer, timestamp, timestamp⟩, []) calls).1

/-- **The engine's price is the last answer, for three hours.** Along every run of the
system with mock feeds, the engine values a registered token exactly when the last
update of its feed is at most three hours old and nothing overflows, and then at the
answer of that update, whatever round it was for. -/
theorem getUsdValue_eq_ok_last (d : Deployment) (mock : Address → Option MockV3Aggregator)
    (hfeed : ∀ f, d.feed f = (mock f).map latestRoundData) (token : Address) (timestamp : UInt256)
    (decimals : BitVec 8) (answer : Int256) (m : MockV3Aggregator)
    (hm : MockV3Aggregator.constructor timestamp decimals answer = .ok m)
    (hmock : mock (d.genesis.s_priceFeeds token) = some m) (actions : List (NetworkAction d))
    (amount value : UInt256) :
    let n := Machine.run step (genesis d mock hfeed) actions
    let last := lastUpdate timestamp answer
      (told (d.genesis.s_priceFeeds token) (genesis d mock hfeed) actions)
    getUsdValue token amount n.toWorld = .ok value ↔
      last.updatedAt.toNat ≤ n.timestamp.toNat ∧
        n.timestamp.toNat ≤ last.updatedAt.toNat + TIMEOUT.toNat ∧
        last.answer.toNat * 10 ^ 10 < 2 ^ 256 ∧
        last.answer.toNat * 10 ^ 10 * amount.toNat < 2 ^ 256 ∧
        value.toNat = usdValue last.answer.toNat amount.toNat := by
  intro n last
  have hround : n.feed (n.s_priceFeeds token) = some ⟨last.round.setWidth 80, last.answer,
      last.startedAt, last.updatedAt, last.round.setWidth 80⟩ := by
    obtain ⟨actions', hrun⟩ := exists_run actions (genesis d mock hfeed)
    have hsound : d.Sound n.toWorld := hrun ▸ d.sound_run actions'
    obtain ⟨m', hm', hstores⟩ := stores_constructor timestamp decimals answer
    cases hm'.symm.trans hm
    have hjournal := stores_run (j := (⟨1, answer, timestamp, timestamp⟩, []))
      (told (d.genesis.s_priceFeeds token) (genesis d mock hfeed) actions) hstores
    have hlatest := hjournal.latestRoundData_eq
    have hmockRun := mock_run (d.genesis.s_priceFeeds token) actions (genesis d mock hfeed)
    have hstart : (genesis d mock hfeed).mock (d.genesis.s_priceFeeds token) = some m := hmock
    rw [hstart, Option.map_some] at hmockRun
    rw [hsound.priceFeeds_eq, n.feed_eq, hmockRun, Option.map_some, hlatest]
    rfl
  have hprice : n.market.price token = last.answer.toNat := by
    unfold Market.price
    rw [show n.market.feed (n.market.s_priceFeeds token) = some _ from hround]
    rfl
  have hquoted : n.market.Quoted token ↔ last.updatedAt.toNat ≤ n.timestamp.toNat ∧
      n.timestamp.toNat ≤ last.updatedAt.toNat + TIMEOUT.toNat ∧
      last.answer.toNat * 10 ^ 10 < 2 ^ 256 := by
    unfold Market.Quoted
    rw [hprice]
    constructor
    · rintro ⟨round, hfeed', ⟨hle, hold⟩, hfits⟩
      cases hround.symm.trans hfeed'
      have hnow : n.market.timestamp = n.timestamp := rfl
      rw [hnow] at hle hold
      exact ⟨hle, Nat.sub_le_iff_le_add'.mp hold, hfits⟩
    · rintro ⟨hle, hold, hfits⟩
      exact ⟨_, hround, ⟨hle, Nat.sub_le_iff_le_add'.mpr hold⟩, hfits⟩
  rw [getUsdValue_eq_ok, hquoted, hprice]
  simp only [and_assoc]

def anvilMock (f : Address) : Option MockV3Aggregator :=
  if f = wethUsdPriceFeed then
    (MockV3Aggregator.constructor 1 8 (2000 * 10 ^ 8)).toOption
  else if f = wbtcUsdPriceFeed then
    (MockV3Aggregator.constructor 1 8 (1000 * 10 ^ 8)).toOption
  else none

theorem anvil_feed (f : Address) :
    anvil.feed f = (anvilMock f).map MockV3Aggregator.latestRoundData := by
  unfold anvilMock
  by_cases hweth : f = wethUsdPriceFeed
  · subst hweth
    rfl
  · by_cases hwbtc : f = wbtcUsdPriceFeed
    · subst hwbtc
      rfl
    · simp [anvil, hweth, hwbtc]

/-- The feed of WETH is updated an hour after its deployment, and then told another
answer for its first round. -/
def rewound : List (NetworkAction anvil) :=
  [.act (.warp 3601) nofun, .mock wethUsdPriceFeed (.updateAnswer (1500 * 10 ^ 8)),
    .mock wethUsdPriceFeed (.updateRoundData 1 (1800 * 10 ^ 8) 3000 3000)]

/-- The newest update counts, though it is for an old round. -/
theorem getUsdValue_eq_ok_last_rewound :
    getUsdValue weth (10 ^ 18)
      (Machine.run step (genesis anvil anvilMock anvil_feed) rewound).toWorld =
        .ok (1800 * 10 ^ 18) := by
  obtain ⟨m, hm, _⟩ := stores_constructor 1 8 (2000 * 10 ^ 8)
  have hmock : anvilMock (anvil.genesis.s_priceFeeds weth) = some m := by
    have hweth : anvilMock (anvil.genesis.s_priceFeeds weth) =
        (MockV3Aggregator.constructor 1 8 (2000 * 10 ^ 8)).toOption := rfl
    rw [hweth, hm]
    rfl
  exact (getUsdValue_eq_ok_last anvil anvilMock anvil_feed weth 1 8 (2000 * 10 ^ 8) m hm hmock
    rewound (10 ^ 18) (1800 * 10 ^ 18)).mpr (by decide +kernel)

end DefiStablecoin.Network
