import DefiStablecoin.Chainlink.MockV3Aggregator
import DefiStablecoin.System.Invariants

/-!
# The system with mock feeds

The deployed system whose feeds are contracts too: anybody may update them, and
their answers change in no other way.  A run of it is a run of the deployed system
whose oracle happens to be such contracts.
-/

namespace DefiStablecoin

open Solidity OpenZeppelin DSCEngine World Chainlink

namespace Deployment

/-- Only the oracle writes the feeds, and only the clock goes on. -/
theorem surroundings_tx {d : Deployment} {a : Action d} {w w' : World} {u : Unit}
    (hok : a.tx w = .ok (u, w')) :
    (w'.feed = w.feed ∧ w'.timestamp = w.timestamp) ∨
      (∃ feed, a = .oracle feed ∧ w' = w.setFeed feed) ∨
        ∃ timestamp, a = .warp timestamp ∧ w' = w.setTimestamp timestamp := by
  cases a with
  | engine msgSender c =>
      obtain ⟨hmarket, _⟩ := run_refines hok
      exact .inl ⟨congrArg Market.feed hmarket, congrArg Market.timestamp hmarket⟩
  | dsc msgSender c =>
      obtain ⟨_, _, rfl⟩ := callDsc_eq_ok.mp hok
      exact .inl ⟨rfl, rfl⟩
  | token t msgSender c =>
      obtain ⟨_, _, _, rfl⟩ := tx_token_eq_ok.mp hok
      exact .inl ⟨rfl, rfl⟩
  | issueToken t account amount =>
      obtain ⟨_, _, rfl⟩ := tx_issueToken_eq_ok.mp hok
      exact .inl ⟨rfl, rfl⟩
  | oracle feed =>
      cases Tx.store_eq_ok.mp hok
      exact .inr (.inl ⟨feed, rfl, rfl⟩)
  | warp timestamp =>
      cases Tx.store_eq_ok.mp hok
      exact .inr (.inr ⟨timestamp, rfl, rfl⟩)

theorem feed_step {d : Deployment} {a : Action d} (h : ∀ feed, a ≠ .oracle feed) (w : World) :
    (d.step w a).feed = w.feed := by
  rcases Tx.attempt_cases a.tx w with ⟨_, hok⟩ | ⟨_, hsame⟩
  · obtain ⟨hfeed, _⟩ | ⟨feed, ha, _⟩ | ⟨_, _, hw⟩ := surroundings_tx hok
    · exact hfeed
    · exact absurd ha (h feed)
    · rw [step, hw]
      rfl
  · rw [step, hsame]

end Deployment

/-- A world whose feeds are mock contracts. -/
structure Network extends World where
  mock : Address → Option MockV3Aggregator
  feed_eq : ∀ f, toWorld.feed f = (mock f).map MockV3Aggregator.latestRoundData

inductive NetworkAction (d : Deployment) where
  /-- Any action of the deployed system that does not write the feeds. -/
  | act (a : Action d) (h : ∀ feed, a ≠ .oracle feed)
  /-- A call of the mock feed at an address. -/
  | mock (feed : Address) (c : MockV3Aggregator.Call)

namespace Network

variable {d : Deployment} {n : Network}

def callMock (feed : Address) (c : MockV3Aggregator.Call) (n : Network) :
    Address → Option MockV3Aggregator :=
  Function.update n.mock feed ((n.mock feed).map fun m =>
    MockV3Aggregator.step m (n.timestamp, c))

def step (n : Network) : NetworkAction d → Network
  | .act a h => {
      toWorld := d.step n.toWorld a
      mock := n.mock
      feed_eq := fun f => by rw [Deployment.feed_step h, n.feed_eq] }
  | .mock feed c => {
      toWorld := n.toWorld.setFeed fun f =>
        (callMock feed c n f).map MockV3Aggregator.latestRoundData
      mock := callMock feed c n
      feed_eq := fun _ => rfl }

def toldBy (feed : Address) (n : Network) : NetworkAction d → List (UInt256 × MockV3Aggregator.Call)
  | .act _ _ => []
  | .mock f c => if f = feed then [(n.timestamp, c)] else []

/-- The calls of the mock at `feed` along a run. -/
def told (feed : Address) :
    Network → List (NetworkAction d) → List (UInt256 × MockV3Aggregator.Call)
  | _, [] => []
  | n, action :: rest => toldBy feed n action ++ told feed (n.step action) rest

/-- **A mock feed is what its calls have made of it.** -/
theorem mock_run (feed : Address) (actions : List (NetworkAction d)) (n : Network) :
    (Machine.run step n actions).mock feed =
      (n.mock feed).map fun m => Machine.run MockV3Aggregator.step m (told feed n actions) := by
  induction actions generalizing n with
  | nil => simp [Machine.run, told]
  | cons action rest ih =>
      rw [Machine.run, ih (n.step action), told]
      cases action with
      | act a h => rfl
      | mock f c =>
          by_cases hf : f = feed
          · subst hf
            simp [step, callMock, toldBy, Function.comp_def, Machine.run]
          · simp [step, callMock, toldBy, hf, Ne.symm hf]

/-- The actions of the deployed system that a run with mock feeds amounts to. -/
theorem exists_run (actions : List (NetworkAction d)) (n : Network) :
    ∃ actions' : List (Action d),
      (Machine.run step n actions).toWorld = Machine.run d.step n.toWorld actions' := by
  induction actions generalizing n with
  | nil => exact ⟨[], rfl⟩
  | cons action rest ih =>
      obtain ⟨actions', hrest⟩ := ih (n.step action)
      cases action with
      | act a h => exact ⟨a :: actions', hrest⟩
      | mock f c =>
          exact ⟨.oracle (fun g => (callMock f c n g).map MockV3Aggregator.latestRoundData) ::
            actions', hrest⟩

end Network

end DefiStablecoin
