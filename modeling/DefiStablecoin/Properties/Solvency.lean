import DefiStablecoin.System.Invariants

/-!
# Solvency at constant prices

While every feed keeps its answer, every account stays healthy.  The collateral
in the engine's custody is then worth at least twice the stablecoins in
circulation.
-/

namespace DefiStablecoin.Deployment

open Solidity OpenZeppelin DSCEngine World Lending

variable {d : Deployment} {w w' : World} {a : Action d} {u : Unit}

/-- The action leaves the answer of every feed at its initial value; a feed may
still post the same answer again. -/
def KeepsAnswers (d : Deployment) : Action d → Prop
  | .oracle feed => ∀ f, (feed f).map RoundData.answer = (d.feed f).map RoundData.answer
  | _ => True

structure Covered (d : Deployment) (w : World) : Prop where
  sound : d.Sound w
  answers : ∀ f, (w.feed f).map RoundData.answer = (d.feed f).map RoundData.answer
  healthy : ∀ u, w.Healthy u

theorem price_eq_of_answers {m m' : Market} (hfeeds : m'.s_priceFeeds = m.s_priceFeeds)
    (h : ∀ f, (m'.feed f).map RoundData.answer = (m.feed f).map RoundData.answer) :
    m'.price = m.price := by
  funext t
  have hword : ∀ m : Market, m.price t =
      ((m.feed (m.s_priceFeeds t)).map RoundData.answer).elim 0 BitVec.toNat := by
    intro m
    unfold Market.price
    cases m.feed (m.s_priceFeeds t) <;> rfl
  rw [hword, hword, hfeeds, h]

theorem terms_eq_of_answers (h : d.Sound w) (h' : d.Sound w')
    (hanswers : ∀ f, (w'.feed f).map RoundData.answer = (w.feed f).map RoundData.answer) :
    w'.market.terms = w.market.terms := by
  have htokens : w'.market.s_collateralTokens = w.market.s_collateralTokens :=
    h'.collateralTokens_eq.trans h.collateralTokens_eq.symm
  have hfeeds : w'.market.s_priceFeeds = w.market.s_priceFeeds :=
    h'.priceFeeds_eq.trans h.priceFeeds_eq.symm
  unfold Market.terms
  rw [htokens, price_eq_of_answers hfeeds hanswers]

theorem healthy_of_book_eq (h : d.Sound w) (h' : d.Sound w') (hbook : w'.book = w.book)
    (hanswers : ∀ f, (w'.feed f).map RoundData.answer = (w.feed f).map RoundData.answer)
    {v : Address} (hv : w.Healthy v) : w'.Healthy v := by
  unfold Healthy
  rw [terms_eq_of_answers h h' hanswers, hbook]
  exact hv

theorem covered_genesis (d : Deployment) : d.Covered d.genesis where
  sound := sound_genesis
  answers _ := rfl
  healthy _ := Nat.zero_le _

theorem covered_tx (h : d.Covered w) (hkeeps : d.KeepsAnswers a) (hok : a.tx w = .ok (u, w')) :
    d.Covered w' := by
  have hsound := sound_tx h.sound hok
  have hsame : w'.book = w.book →
      (∀ f, (w'.feed f).map RoundData.answer = (w.feed f).map RoundData.answer) →
      d.Covered w' := fun hbook hanswers => {
    sound := hsound
    answers := fun f => (hanswers f).trans (h.answers f)
    healthy := fun v => healthy_of_book_eq h.sound hsound hbook hanswers (h.healthy v) }
  cases a with
  | engine msgSender c =>
      obtain ⟨hmarket, hsteps⟩ := run_refines hok
      have hfeed : w'.feed = w.feed := congrArg Market.feed hmarket
      refine ⟨hsound, fun f => hfeed ▸ h.answers f, fun v => ?_⟩
      unfold Healthy
      rw [hmarket]
      exact hsteps.healthy (h.healthy v)
  | dsc msgSender c =>
      obtain ⟨call, b, k, _, _, rfl⟩ | ⟨account, amount, _, _, _, _, rfl⟩ :=
        callDsc_cases (h.sound.ne_owner msgSender) hok
      · exact hsame rfl fun _ => rfl
      · exact hsame rfl fun _ => rfl
  | token t msgSender c =>
      obtain ⟨b, k, _, rfl⟩ := tx_token_eq_ok.mp hok
      exact hsame rfl fun _ => rfl
  | issueToken t account amount =>
      obtain ⟨_, _, rfl⟩ := tx_issueToken_eq_ok.mp hok
      exact hsame rfl fun _ => rfl
  | oracle feed =>
      cases Tx.store_eq_ok.mp hok
      exact hsame rfl fun f => (hkeeps f).trans (h.answers f).symm
  | warp timestamp =>
      cases Tx.store_eq_ok.mp hok
      exact hsame rfl fun _ => rfl

theorem covered_step (h : d.Covered w) (a : Action d) (hkeeps : d.KeepsAnswers a) :
    d.Covered (d.step w a) := by
  rcases Tx.attempt_cases a.tx w with ⟨_, hok⟩ | ⟨_, hsame⟩
  · exact covered_tx h hkeeps hok
  · rwa [step, hsame]

/-- At constant prices every account is healthy in every reachable state. -/
theorem covered_run {actions : List (Action d)} (hkeeps : ∀ a ∈ actions, d.KeepsAnswers a) :
    d.Covered (d.run actions) :=
  Machine.run_invariant_along (I := d.Covered) (fun _ a h ha => covered_step h a ha)
    (covered_genesis d) (Machine.along_of_forall_mem fun a ha _ => hkeeps a ha)

/-- What the engine holds covers the supply twice where it covers the deposits. -/
theorem solvent_of_covered {actions : List (Action d)} (hcovered : d.Covered (d.run actions)) :
    2 * (d.run actions).supply ≤ d.genesis.market.terms.value (d.run actions).holdings := by
  have hterms : d.genesis.market.terms = (d.run actions).market.terms :=
    terms_eq_of_answers hcovered.sound sound_genesis fun f => (hcovered.answers f).symm
  have hreserve : ∀ t, ∑ v, (d.run actions).book.collateral v t ≤ (d.run actions).holdings t :=
    fun t => (Nat.le_add_right _ _).trans (d.holdings_run actions t).ge
  calc 2 * (d.run actions).supply ≤ 2 * (d.run actions).debts := by
        have hdebts := d.debts_run actions
        omega
    _ ≤ (d.run actions).market.terms.value (d.run actions).holdings :=
        Terms.solvent hcovered.healthy hreserve
    _ = d.genesis.market.terms.value (d.run actions).holdings := by rw [hterms]

/-- **Solvency.** While the feeds keep their answers, the engine's holdings of the
registered tokens are worth at least twice the supply of the stablecoin. -/
theorem solvent_run (d : Deployment) (actions : List (Action d))
    (hkeeps : ∀ a ∈ actions, d.KeepsAnswers a) :
    2 * (d.run actions).supply ≤
      (d.s_tokenAddresses.map fun t =>
        d.genesis.market.price t * 10 ^ 10 * (d.run actions).holdings t / 10 ^ 18).sum :=
  solvent_of_covered (covered_run hkeeps)

def steady : List (Action anvil) :=
  openPosition USER (10 * 10 ^ 18) (100 * 10 ^ 18) ++ [updateAnswer (2000 * 10 ^ 8)]

theorem keepsAnswers_steady : ∀ a ∈ steady, anvil.KeepsAnswers a := by
  intro a ha
  simp only [steady, openPosition, List.cons_append, List.nil_append, List.mem_cons,
    List.not_mem_nil, or_false] at ha
  rcases ha with rfl | rfl | rfl | rfl | rfl
  case inr.inr.inr.inr =>
    intro f
    by_cases hf : f = wethUsdPriceFeed <;> simp [anvil, hf]
  all_goals trivial

theorem solvent_run_openPosition :
    (anvil.run steady).supply = 100 * 10 ^ 18 ∧
      2 * (anvil.run steady).supply ≤
        (anvil.s_tokenAddresses.map fun t =>
          anvil.genesis.market.price t * 10 ^ 10 * (anvil.run steady).holdings t / 10 ^ 18).sum :=
  ⟨by decide +kernel, solvent_run anvil steady keepsAnswers_steady⟩

end DefiStablecoin.Deployment
