import DefiStablecoin.Lending.Book
import Mathlib.Logic.Function.Basic

/-!
# What a lending protocol may do to its book

Five operations change a book, and a protocol allows each of them only under the
health conditions of `Step`.  From these conditions alone it follows that no step
makes a healthy account unhealthy, that no step makes an unhealthy one worse, and
that only an unhealthy account can be touched by somebody else.
-/

namespace DefiStablecoin.Lending

variable {Account Token : Type*} [DecidableEq Account] [DecidableEq Token]

namespace Book

def deposit (u : Account) (t : Token) (a : ℕ) (b : Book Account Token) : Book Account Token :=
  { b with
    collateral := Function.update b.collateral u
      (Function.update (b.collateral u) t (b.collateral u t + a)) }

def withdraw (u : Account) (t : Token) (a : ℕ) (b : Book Account Token) : Book Account Token :=
  { b with
    collateral := Function.update b.collateral u
      (Function.update (b.collateral u) t (b.collateral u t - a)) }

def borrow (u : Account) (x : ℕ) (b : Book Account Token) : Book Account Token :=
  { b with debt := Function.update b.debt u (b.debt u + x) }

def repay (u : Account) (x : ℕ) (b : Book Account Token) : Book Account Token :=
  { b with debt := Function.update b.debt u (b.debt u - x) }

theorem le_deposit (b : Book Account Token) (u v : Account) (t t' : Token) (a : ℕ) :
    b.collateral v t' ≤ (b.deposit u t a).collateral v t' := by
  unfold deposit
  by_cases hv : v = u
  · subst hv
    by_cases ht : t' = t
    · subst ht
      simp
    · simp [ht]
  · simp [hv]

omit [DecidableEq Token] in
theorem le_borrow (b : Book Account Token) (u v : Account) (x : ℕ) :
    b.debt v ≤ (b.borrow u x).debt v := by
  unfold borrow
  by_cases hv : v = u
  · subst hv
    simp
  · simp [hv]

theorem withdraw_le (b : Book Account Token) (u v : Account) (t t' : Token) (a : ℕ) :
    (b.withdraw u t a).collateral v t' ≤ b.collateral v t' := by
  unfold withdraw
  by_cases hv : v = u
  · subst hv
    by_cases ht : t' = t
    · subst ht
      simp
    · simp [ht]
  · simp [hv]

theorem untouched_withdraw_repay (b : Book Account Token) {u v : Account} (h : v ≠ u) (t : Token)
    (a x : ℕ) : b.Untouched v ((b.withdraw u t a).repay u x) :=
  ⟨Function.update_of_ne h _ _, Function.update_of_ne h _ _⟩

end Book

/-- An operation on the book: the caller's own, or a liquidation of another account. -/
inductive Op (Account Token : Type*) where
  | deposit (t : Token) (a : ℕ)
  | withdraw (t : Token) (a : ℕ)
  | borrow (x : ℕ)
  | repay (x : ℕ)
  | liquidate (target : Account) (t : Token) (seized x : ℕ)

def Op.target : Op Account Token → Option Account
  | .liquidate target _ _ _ => some target
  | _ => none

/-- What an operation is asked to move; the debt, in a liquidation. -/
def Op.amount : Op Account Token → ℕ
  | .deposit _ a => a
  | .withdraw _ a => a
  | .borrow x => x
  | .repay x => x
  | .liquidate _ _ _ x => x

/-- The book after an operation of the caller `c`, whether the protocol allows it or not. -/
def Op.apply (c : Account) : Op Account Token → Book Account Token → Book Account Token
  | .deposit t a, b => b.deposit c t a
  | .withdraw t a, b => b.withdraw c t a
  | .borrow x, b => b.borrow c x
  | .repay x, b => b.repay c x
  | .liquidate target t seized x, b => (b.withdraw target t seized).repay target x

/-- The steps that the protocol allows to the caller `c`.  Every operation but a
deposit leaves the caller healthy, and a liquidation needs an unhealthy target
whose score it raises. -/
inductive Step (T : Terms Token) (c : Account) :
    Op Account Token → Book Account Token → Book Account Token → Prop
  | deposit {b : Book Account Token} (t : Token) (a : ℕ) :
      Step T c (.deposit t a) b (b.deposit c t a)
  | withdraw {b : Book Account Token} {t : Token} {a : ℕ} (hcover : a ≤ b.collateral c t)
      (hcaller : T.Healthy (b.withdraw c t a) c) :
      Step T c (.withdraw t a) b (b.withdraw c t a)
  | borrow {b : Book Account Token} {x : ℕ} (hcaller : T.Healthy (b.borrow c x) c) :
      Step T c (.borrow x) b (b.borrow c x)
  | repay {b : Book Account Token} {x : ℕ} (howed : x ≤ b.debt c)
      (hcaller : T.Healthy (b.repay c x) c) :
      Step T c (.repay x) b (b.repay c x)
  | liquidate {b : Book Account Token} {target : Account} {t : Token} {seized x : ℕ}
      (hcover : seized ≤ b.collateral target t) (howed : x ≤ b.debt target)
      (hbefore : ¬T.Healthy b target)
      (hrise : T.scoreOf b target < T.scoreOf ((b.withdraw target t seized).repay target x) target)
      (hcaller : T.Healthy ((b.withdraw target t seized).repay target x) c) :
      Step T c (.liquidate target t seized x) b ((b.withdraw target t seized).repay target x)

variable {T : Terms Token} {c v : Account} {op : Op Account Token} {b b' : Book Account Token}

namespace Step

theorem eq_apply (h : Step T c op b b') : b' = op.apply c b := by
  cases h <;> rfl

/-- A step touches the caller and the target of a liquidation, nobody else. -/
theorem untouched (h : Step T c op b b') (hcaller : v ≠ c) (htarget : op.target ≠ some v) :
    b.Untouched v b' := by
  cases h with
  | deposit => exact ⟨Function.update_of_ne hcaller _ _, rfl⟩
  | withdraw => exact ⟨Function.update_of_ne hcaller _ _, rfl⟩
  | borrow => exact ⟨rfl, Function.update_of_ne hcaller _ _⟩
  | repay => exact ⟨rfl, Function.update_of_ne hcaller _ _⟩
  | liquidate => exact b.untouched_withdraw_repay (fun heq => htarget (congrArg some heq.symm)) ..

theorem target_unhealthy (h : Step T c op b b') (htarget : op.target = some v) :
    ¬T.Healthy b v := by
  cases h with
  | liquidate _ _ hbefore => exact Option.some.inj htarget ▸ hbefore
  | _ => exact absurd htarget (by simp [Op.target])

theorem target_score_lt (h : Step T c op b b') (htarget : op.target = some v) :
    T.scoreOf b v < T.scoreOf b' v := by
  cases h with
  | liquidate _ _ _ hrise => exact Option.some.inj htarget ▸ hrise
  | _ => exact absurd htarget (by simp [Op.target])

theorem caller_healthy (h : Step T c op b b') (hop : ∀ t a, op ≠ .deposit t a) :
    T.Healthy b' c := by
  cases h with
  | deposit t a => exact absurd rfl (hop t a)
  | withdraw _ hcaller => exact hcaller
  | borrow hcaller => exact hcaller
  | repay _ hcaller => exact hcaller
  | liquidate _ _ _ _ hcaller => exact hcaller

/-- **No step makes a healthy account unhealthy.** -/
theorem healthy (h : Step T c op b b') (hv : T.Healthy b v) : T.Healthy b' v := by
  have htarget : op.target ≠ some v := fun heq => h.target_unhealthy heq hv
  by_cases hcaller : v = c
  · subst hcaller
    by_cases hdeposit : ∃ t a, op = .deposit t a
    · obtain ⟨t, a, rfl⟩ := hdeposit
      cases h
      exact hv.mono (b.le_deposit v v t · a) le_rfl
    · exact h.caller_healthy fun t a heq => hdeposit ⟨t, a, heq⟩
  · exact (h.untouched hcaller htarget).healthy_iff.mpr hv

/-- **No step lowers the score of an unhealthy account.** -/
theorem score_le (h : Step T c op b b') (hv : T.scoreOf b v < T.threshold) :
    T.scoreOf b v ≤ T.scoreOf b' v := by
  by_cases htarget : op.target = some v
  · exact (h.target_score_lt htarget).le
  by_cases hcaller : v = c
  · subst hcaller
    by_cases hdeposit : ∃ t a, op = .deposit t a
    · obtain ⟨t, a, rfl⟩ := hdeposit
      cases h
      exact T.score_mono hv le_rfl (T.value_mono (b.le_deposit v v t · a))
    · have hafter := h.caller_healthy fun t a heq => hdeposit ⟨t, a, heq⟩
      exact (hv.trans_le (Terms.threshold_le_scoreOf.mpr hafter)).le
  · exact (h.untouched hcaller htarget).scoreOf_eq.ge

end Step

inductive Steps (T : Terms Token) (c : Account) :
    List (Op Account Token) → Book Account Token → Book Account Token → Prop
  | nil {b : Book Account Token} : Steps T c [] b b
  | cons {op : Op Account Token} {ops : List (Op Account Token)} {b b' b'' : Book Account Token}
      (head : Step T c op b b') (tail : Steps T c ops b' b'') : Steps T c (op :: ops) b b''

namespace Steps

variable {ops : List (Op Account Token)}

theorem single (h : Step T c op b b') : Steps T c [op] b b' := .cons h .nil

theorem healthy (h : Steps T c ops b b') (hv : T.Healthy b v) : T.Healthy b' v := by
  induction h with
  | nil => exact hv
  | cons head _ ih => exact ih (head.healthy hv)

/-- Below the threshold the score does not drop, even when a step in between lifts
it over the threshold. -/
theorem score_le (h : Steps T c ops b b') (hv : T.scoreOf b v < T.threshold) :
    T.scoreOf b v ≤ T.scoreOf b' v := by
  induction h with
  | nil => exact le_rfl
  | @cons op ops b b₁ b₂ head tail ih =>
      have hhead := head.score_le hv
      by_cases hmid : T.scoreOf b₁ v < T.threshold
      · exact hhead.trans (ih hmid)
      · have hhealthy := Terms.threshold_le_scoreOf.mp (not_lt.mp hmid)
        exact (hv.trans_le (Terms.threshold_le_scoreOf.mpr (tail.healthy hhealthy))).le

theorem untouched (h : Steps T c ops b b') (hcaller : v ≠ c)
    (htarget : ∀ op ∈ ops, op.target ≠ some v) : b.Untouched v b' := by
  induction h with
  | nil => exact ⟨rfl, rfl⟩
  | cons head _ ih =>
      exact (head.untouched hcaller (htarget _ (List.mem_cons_self ..))).trans
        (ih fun op hop => htarget op (List.mem_cons_of_mem _ hop))

theorem caller_healthy (h : Steps T c (ops ++ [op]) b b') (hop : ∀ t a, op ≠ .deposit t a) :
    T.Healthy b' c := by
  induction ops generalizing b with
  | nil =>
      cases h with
      | cons head tail =>
          cases tail
          exact head.caller_healthy hop
  | cons op' ops ih =>
      cases h with
      | cons head tail => exact ih tail

end Steps

/-- The books that the protocol reaches from the empty one while its terms change from
step to step, where `ok` says which steps the surroundings have room for. -/
inductive Reached {ι : Type*} (terms : ι → Terms Token)
    (ok : ι → Account → Op Account Token → Book Account Token → Prop) : Book Account Token → Prop
  | empty : Reached terms ok ⟨fun _ _ => 0, fun _ => 0⟩
  | step {i : ι} {c : Account} {op : Op Account Token} {b b' : Book Account Token}
      (h : Reached terms ok b) (hok : ok i c op b) (hstep : Step (terms i) c op b b') :
      Reached terms ok b'

end DefiStablecoin.Lending
