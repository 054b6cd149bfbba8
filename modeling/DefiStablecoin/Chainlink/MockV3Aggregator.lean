import DefiStablecoin.Contracts.World
import DefiStablecoin.Solidity.Machine

/-!
# The mock price feed

`MockV3Aggregator`, the feed of the local network.  Its rounds are kept by their
numbers as words, but are asked for and reported by numbers of 80 bits.  What the
feed stores is compared with the journal of its updates, newest first.
-/

namespace DefiStablecoin.Chainlink

open Solidity

structure MockV3Aggregator where
  decimals : BitVec 8
  latestAnswer : Int256
  latestTimestamp : UInt256
  latestRound : UInt256
  getAnswer : UInt256 → Int256
  getTimestamp : UInt256 → UInt256
  getStartedAt : UInt256 → UInt256

namespace MockV3Aggregator

def updateAnswer (timestamp : UInt256) (_answer : Int256) (m : MockV3Aggregator) :
    Except Revert MockV3Aggregator := do
  let latestRound ← checkedAdd m.latestRound 1
  return { m with
    latestAnswer := _answer
    latestTimestamp := timestamp
    latestRound
    getAnswer := Function.update m.getAnswer latestRound _answer
    getTimestamp := Function.update m.getTimestamp latestRound timestamp
    getStartedAt := Function.update m.getStartedAt latestRound timestamp }

def constructor (timestamp : UInt256) (_decimals : BitVec 8) (_initialAnswer : Int256) :
    Except Revert MockV3Aggregator :=
  updateAnswer timestamp _initialAnswer ⟨_decimals, 0, 0, 0, fun _ => 0, fun _ => 0, fun _ => 0⟩

def updateRoundData (_roundId : BitVec 80) (_answer : Int256) (_timestamp _startedAt : UInt256)
    (m : MockV3Aggregator) : MockV3Aggregator :=
  let latestRound := _roundId.setWidth 256
  { m with
    latestRound
    latestAnswer := _answer
    latestTimestamp := _timestamp
    getAnswer := Function.update m.getAnswer latestRound _answer
    getTimestamp := Function.update m.getTimestamp latestRound _timestamp
    getStartedAt := Function.update m.getStartedAt latestRound _startedAt }

def getRoundData (_roundId : BitVec 80) (m : MockV3Aggregator) : RoundData :=
  let round := _roundId.setWidth 256
  ⟨_roundId, m.getAnswer round, m.getStartedAt round, m.getTimestamp round, _roundId⟩

def latestRoundData (m : MockV3Aggregator) : RoundData :=
  ⟨m.latestRound.setWidth 80, m.getAnswer m.latestRound, m.getStartedAt m.latestRound,
    m.getTimestamp m.latestRound, m.latestRound.setWidth 80⟩

inductive Call where
  | updateAnswer (_answer : Int256)
  | updateRoundData (_roundId : BitVec 80) (_answer : Int256) (_timestamp _startedAt : UInt256)

def Call.run (timestamp : UInt256) : Call → MockV3Aggregator → Except Revert MockV3Aggregator
  | .updateAnswer answer => MockV3Aggregator.updateAnswer timestamp answer
  | .updateRoundData roundId answer timestamp startedAt => fun m =>
      .ok (MockV3Aggregator.updateRoundData roundId answer timestamp startedAt m)

/-! ## The journal of updates -/

/-- What an update writes, and for which round. -/
structure Update where
  round : UInt256
  answer : Int256
  startedAt : UInt256
  updatedAt : UInt256

/-- The update of a call, made at `timestamp` when `last` was the latest round. -/
def Call.update (timestamp last : UInt256) : Call → Update
  | .updateAnswer answer => ⟨last + 1, answer, timestamp, timestamp⟩
  | .updateRoundData roundId answer timestamp startedAt =>
      ⟨roundId.setWidth 256, answer, startedAt, timestamp⟩

def Call.Fits (last : UInt256) : Call → Prop
  | .updateAnswer _ => last.toNat + 1 < 2 ^ 256
  | .updateRoundData .. => True

instance (last : UInt256) : (c : Call) → Decidable (c.Fits last)
  | .updateAnswer _ => inferInstanceAs (Decidable (_ < _))
  | .updateRoundData .. => inferInstanceAs (Decidable True)

def lookup (round : UInt256) : List Update → Option Update
  | [] => none
  | update :: journal => if update.round = round then some update else lookup round journal

def step (m : MockV3Aggregator) (c : UInt256 × Call) : MockV3Aggregator :=
  match c.2.run c.1 m with
  | .ok m' => m'
  | .error _ => m

def note (journal : Update × List Update) (c : UInt256 × Call) : Update × List Update :=
  if c.2.Fits journal.1.round then
    (c.2.update c.1 journal.1.round, journal.1 :: journal.2)
  else journal

/-! ## The feed is its journal -/

/-- What both functions do. -/
def record (update : Update) (m : MockV3Aggregator) : MockV3Aggregator :=
  { m with
    latestAnswer := update.answer
    latestTimestamp := update.updatedAt
    latestRound := update.round
    getAnswer := Function.update m.getAnswer update.round update.answer
    getTimestamp := Function.update m.getTimestamp update.round update.updatedAt
    getStartedAt := Function.update m.getStartedAt update.round update.startedAt }

variable {m m' : MockV3Aggregator} {update : Update} {older : List Update} {timestamp : UInt256}

theorem run_eq_ok {c : Call} :
    c.run timestamp m = .ok m' ↔
      c.Fits m.latestRound ∧ m' = m.record (c.update timestamp m.latestRound) := by
  cases c with
  | updateAnswer answer =>
      have hone : (1 : UInt256).toNat = 1 := rfl
      simp only [Call.run, updateAnswer, except_bind_eq_ok, checkedAdd_eq_ok, except_pure_eq_ok,
        hone]
      constructor
      · rintro ⟨_, ⟨hfits, rfl⟩, rfl⟩
        exact ⟨hfits, rfl⟩
      · rintro ⟨hfits, rfl⟩
        exact ⟨_, ⟨hfits, rfl⟩, rfl⟩
  | updateRoundData roundId answer updatedAt startedAt =>
      constructor
      · intro h
        cases h
        exact ⟨trivial, rfl⟩
      · rintro ⟨_, rfl⟩
        rfl

/-- The feed stores for every round the newest update for it, and nothing for a round
that has none. -/
structure Stores (m : MockV3Aggregator) (update : Update) (older : List Update) : Prop where
  latestRound_eq : m.latestRound = update.round
  latestAnswer_eq : m.latestAnswer = update.answer
  latestTimestamp_eq : m.latestTimestamp = update.updatedAt
  getAnswer_eq : ∀ round,
    m.getAnswer round = (lookup round (update :: older)).elim 0 Update.answer
  getStartedAt_eq : ∀ round,
    m.getStartedAt round = (lookup round (update :: older)).elim 0 Update.startedAt
  getTimestamp_eq : ∀ round,
    m.getTimestamp round = (lookup round (update :: older)).elim 0 Update.updatedAt

theorem lookup_self : lookup update.round (update :: older) = some update := if_pos rfl

theorem lookup_of_ne {round : UInt256} (h : round ≠ update.round) :
    lookup round (update :: older) = lookup round older := if_neg h.symm

theorem update_eq_lookup {α : Type} {stored : UInt256 → α} {zero : α} {field : Update → α}
    (h : ∀ round, stored round = (lookup round older).elim zero field) (round : UInt256) :
    Function.update stored update.round (field update) round =
      (lookup round (update :: older)).elim zero field := by
  by_cases hround : round = update.round
  · subst hround
    rw [Function.update_self, lookup_self]
    rfl
  · rw [Function.update_of_ne hround, lookup_of_ne hround, h round]

theorem Stores.record {next : Update} (h : Stores m update older) :
    Stores (m.record next) next (update :: older) where
  latestRound_eq := rfl
  latestAnswer_eq := rfl
  latestTimestamp_eq := rfl
  getAnswer_eq := update_eq_lookup h.getAnswer_eq
  getStartedAt_eq := update_eq_lookup h.getStartedAt_eq
  getTimestamp_eq := update_eq_lookup h.getTimestamp_eq

theorem Stores.step {journal : Update × List Update} (h : Stores m journal.1 journal.2)
    (c : UInt256 × Call) : Stores (step m c) (note journal c).1 (note journal c).2 := by
  unfold MockV3Aggregator.step note
  rw [← h.latestRound_eq]
  by_cases hfits : c.2.Fits m.latestRound
  · rw [run_eq_ok.mpr ⟨hfits, rfl⟩, if_pos hfits]
    exact h.record
  · rw [if_neg hfits]
    cases hrun : c.2.run c.1 m with
    | error e => exact h
    | ok m' => exact absurd (run_eq_ok.mp hrun).1 hfits

theorem stores_run (calls : List (UInt256 × Call)) {j : Update × List Update}
    (h : Stores m j.1 j.2) :
    Stores (Machine.run MockV3Aggregator.step m calls) (Machine.run note j calls).1
      (Machine.run note j calls).2 := by
  induction calls generalizing m j with
  | nil => exact h
  | cons c calls ih => exact ih (h.step c)

theorem stores_constructor (timestamp : UInt256) (decimals : BitVec 8) (answer : Int256) :
    ∃ m, constructor timestamp decimals answer = .ok m ∧
      Stores m ⟨1, answer, timestamp, timestamp⟩ [] := by
  have hempty : ∀ {α : Type} (field : Update → α) (zero : α) (round : UInt256),
      (fun _ => zero) round = (lookup round []).elim zero field := fun _ _ _ => rfl
  have hfirst : (0 : UInt256).toNat + 1 < 2 ^ 256 := by decide
  refine ⟨_, (run_eq_ok (c := .updateAnswer answer)).mpr ⟨hfirst, rfl⟩, rfl, rfl, rfl, ?_, ?_, ?_⟩
  · exact update_eq_lookup (hempty _ _)
  · exact update_eq_lookup (hempty _ _)
  · exact update_eq_lookup (hempty _ _)

/-! ## What is read back -/

theorem Stores.latestRoundData_eq (h : Stores m update older) :
    m.latestRoundData =
      ⟨update.round.setWidth 80, update.answer, update.startedAt, update.updatedAt,
      update.round.setWidth 80⟩ := by
  unfold latestRoundData
  rw [h.latestRound_eq, h.getAnswer_eq, h.getStartedAt_eq, h.getTimestamp_eq, lookup_self]
  rfl

/-- A round number of 80 bits is found again. -/
theorem Stores.getRoundData_latest (h : Stores m update older)
    (hfits : update.round.toNat < 2 ^ 80) :
    m.getRoundData m.latestRoundData.roundId = m.latestRoundData := by
  have hround : (m.latestRound.setWidth 80).setWidth 256 = m.latestRound := by
    apply BitVec.eq_of_toNat_eq
    rw [h.latestRound_eq, BitVec.toNat_setWidth, BitVec.toNat_setWidth]
    omega
  simp only [getRoundData, latestRoundData, hround]

/-- **The feed reads back the newest update of every round.** After any calls at any
times, `latestRoundData` is the newest update, `getRoundData` is the newest update of
the round that is asked for, and they agree on the latest round while its number
has 80 bits. -/
theorem reads_of_journal (timestamp : UInt256) (decimals : BitVec 8) (answer : Int256)
    (calls : List (UInt256 × Call)) :
    ∃ m, constructor timestamp decimals answer = .ok m ∧
      let after := Machine.run step m calls
      let journal := Machine.run note (⟨1, answer, timestamp, timestamp⟩, []) calls
      let updates := journal.1 :: journal.2
      after.latestRoundData = ⟨journal.1.round.setWidth 80, journal.1.answer, journal.1.startedAt,
          journal.1.updatedAt, journal.1.round.setWidth 80⟩ ∧
        after.latestAnswer = journal.1.answer ∧ after.latestTimestamp = journal.1.updatedAt ∧
        (∀ roundId : BitVec 80, after.getRoundData roundId =
          ⟨roundId, (lookup (roundId.setWidth 256) updates).elim 0 Update.answer,
            (lookup (roundId.setWidth 256) updates).elim 0 Update.startedAt,
            (lookup (roundId.setWidth 256) updates).elim 0 Update.updatedAt, roundId⟩) ∧
        (journal.1.round.toNat < 2 ^ 80 →
          after.getRoundData after.latestRoundData.roundId = after.latestRoundData) := by
  obtain ⟨m, hm, hstores⟩ := stores_constructor timestamp decimals answer
  have hrun := stores_run (j := (⟨1, answer, timestamp, timestamp⟩, [])) calls hstores
  refine ⟨m, hm, hrun.latestRoundData_eq, hrun.latestAnswer_eq, hrun.latestTimestamp_eq,
    fun roundId => ?_, hrun.getRoundData_latest⟩
  rw [getRoundData, hrun.getAnswer_eq, hrun.getStartedAt_eq, hrun.getTimestamp_eq]

end MockV3Aggregator

end DefiStablecoin.Chainlink
