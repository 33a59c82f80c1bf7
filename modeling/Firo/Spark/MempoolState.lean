import Firo.Spark.State

/-! `CSparkMempoolState` of `spark/state.h`, and the insertion of a spend's linking tags through
`CSparkState::AddSpendToMempool`, which tests and inserts the tags one by one. -/
namespace Firo.Spark

variable {Coin Tag : Type}

structure CSparkMempoolState (Tag : Type) where
  mempoolLTags : Tag → Option Uint256 := fun _ => none
  mempoolMints : Uint256 → Option Uint256 := fun _ => none

namespace CSparkMempoolState

def hasLTag (pool : CSparkMempoolState Tag) (lTag : Tag) : Bool :=
  (pool.mempoolLTags lTag).isSome

/-- `insert` keeps an entry that is there. -/
def addSpendToMempool [DecidableEq Tag] (pool : CSparkMempoolState Tag) (lTag : Tag)
    (txHash : Uint256) : CSparkMempoolState Tag :=
  if pool.hasLTag lTag then pool
  else { pool with mempoolLTags := Function.update pool.mempoolLTags lTag (some txHash) }

end CSparkMempoolState

namespace CSparkState

/-- `AddSpendToMempool`: the verdict, and the mempool's state at the return. -/
def addSpendToMempool [DecidableEq Tag] (s : CSparkState Coin Tag) (txHash : Uint256) :
    List Tag → CSparkMempoolState Tag → Bool × CSparkMempoolState Tag
  | [], pool => (true, pool)
  | lTag :: lTags, pool =>
    if s.isUsedLTag lTag || pool.hasLTag lTag then (false, pool)
    else s.addSpendToMempool txHash lTags (pool.addSpendToMempool lTag txHash)

variable [DecidableEq Tag] {s : CSparkState Coin Tag} {txHash : Uint256} {lTags : List Tag}
  {pool : CSparkMempoolState Tag}

/-- Neither spent in the chain nor by a transaction of the mempool. -/
def Free (s : CSparkState Coin Tag) (pool : CSparkMempoolState Tag) (lTag : Tag) : Prop :=
  s.isUsedLTag lTag = false ∧ pool.hasLTag lTag = false

instance (s : CSparkState Coin Tag) (pool : CSparkMempoolState Tag) (lTag : Tag) :
    Decidable (s.Free pool lTag) :=
  inferInstanceAs (Decidable (_ ∧ _))

def withLTags (pool : CSparkMempoolState Tag) (lTags : List Tag) (txHash : Uint256) :
    CSparkMempoolState Tag :=
  { pool with
    mempoolLTags := fun lTag => if lTag ∈ lTags then some txHash else pool.mempoolLTags lTag }

lemma addSpendToMempool_cons_of_free {lTag} (h : s.Free pool lTag) :
    s.addSpendToMempool txHash (lTag :: lTags) pool =
      s.addSpendToMempool txHash lTags (withLTags pool [lTag] txHash) := by
  have hadd : pool.addSpendToMempool lTag txHash = withLTags pool [lTag] txHash := by
    rw [CSparkMempoolState.addSpendToMempool, if_neg (by simp [h.2]), withLTags]
    congr 1
    funext tag
    simp [Function.update_apply]
  rw [addSpendToMempool, if_neg (by simp [h.1, h.2]), hadd]

lemma addSpendToMempool_cons_of_not_free {lTag} (h : ¬ s.Free pool lTag) :
    s.addSpendToMempool txHash (lTag :: lTags) pool = (false, pool) := by
  rw [addSpendToMempool, if_pos]
  by_contra hfree
  apply h
  simpa [Free] using hfree

lemma free_withLTags_iff {lTag tag} :
    s.Free (withLTags pool [tag] txHash) lTag ↔ lTag ≠ tag ∧ s.Free pool lTag := by
  by_cases heq : lTag = tag <;>
    simp [Free, CSparkMempoolState.hasLTag, withLTags, heq]

lemma withLTags_withLTags (tag) : withLTags (withLTags pool [tag] txHash) lTags txHash =
      withLTags pool (tag :: lTags) txHash := by
  unfold withLTags
  congr 1
  funext lTag
  by_cases heq : lTag = tag <;> by_cases hmem : lTag ∈ lTags <;> simp [heq, hmem]

lemma addSpendToMempool_eq_true_iff {pool'} :
    s.addSpendToMempool txHash lTags pool = (true, pool') ↔
      lTags.Nodup ∧ (∀ lTag ∈ lTags, s.Free pool lTag) ∧ pool' = withLTags pool lTags txHash := by
  induction lTags generalizing pool with
  | nil => simp [addSpendToMempool, withLTags, eq_comm]
  | cons tag lTags ih =>
    by_cases hfree : s.Free pool tag
    · rw [addSpendToMempool_cons_of_free hfree, ih, withLTags_withLTags, List.nodup_cons,
        List.forall_mem_cons]
      simp only [free_withLTags_iff]
      constructor
      · rintro ⟨hnodup, hall, heq⟩
        exact ⟨⟨fun hmem => (hall tag hmem).1 rfl, hnodup⟩, ⟨hfree, fun u hu => (hall u hu).2⟩, heq⟩
      · rintro ⟨⟨hnotMem, hnodup⟩, ⟨-, hall⟩, heq⟩
        exact ⟨hnodup, fun u hu => ⟨fun h => hnotMem (h ▸ hu), hall u hu⟩, heq⟩
    · rw [addSpendToMempool_cons_of_not_free hfree]
      simp [hfree]

lemma mempoolLTags_addSpendToMempool {lTag} {hash} (h : pool.mempoolLTags lTag = some hash) :
    (s.addSpendToMempool txHash lTags pool).2.mempoolLTags lTag = some hash := by
  induction lTags generalizing pool with
  | nil => exact h
  | cons tag lTags ih =>
    by_cases hfree : s.Free pool tag
    · rw [addSpendToMempool_cons_of_free hfree]
      apply ih
      have hne : lTag ≠ tag := by
        rintro rfl
        simp [Free, CSparkMempoolState.hasLTag, h] at hfree
      simp [withLTags, hne, h]
    · rw [addSpendToMempool_cons_of_not_free hfree]
      exact h

/-- Nothing is added when the verdict is negative, and exactly the listed tags when it is
positive, if and only if all tags are free and different or already the first is not free. -/
theorem addSpendToMempool_all_or_nothing_iff (s : CSparkState Coin Tag) (txHash : Uint256)
    (lTags : List Tag) (pool : CSparkMempoolState Tag) :
    (((s.addSpendToMempool txHash lTags pool).1 = false →
        (s.addSpendToMempool txHash lTags pool).2.mempoolLTags = pool.mempoolLTags) ∧
      ((s.addSpendToMempool txHash lTags pool).1 = true →
        (∀ lTag ∈ lTags, pool.mempoolLTags lTag = none) ∧
        ∀ lTag, (s.addSpendToMempool txHash lTags pool).2.mempoolLTags lTag =
          if lTag ∈ lTags then some txHash else pool.mempoolLTags lTag)) ↔
      (lTags.Nodup ∧ ∀ lTag ∈ lTags, s.Free pool lTag) ∨
        ∃ lTag ∈ lTags.head?, ¬ s.Free pool lTag := by
  constructor
  · rintro ⟨hfalse, -⟩
    by_cases hverdict : (s.addSpendToMempool txHash lTags pool).1 = true
    · obtain ⟨hnodup, hall, -⟩ := addSpendToMempool_eq_true_iff.mp (Prod.ext hverdict rfl)
      exact Or.inl ⟨hnodup, hall⟩
    · cases lTags with
      | nil => exact absurd rfl hverdict
      | cons tag lTags =>
        by_cases hfree : s.Free pool tag
        · -- The first tag has been added before the verdict.
          have hunchanged := congrFun (hfalse (Bool.not_eq_true _ ▸ hverdict)) tag
          have hadded : (withLTags pool [tag] txHash).mempoolLTags tag = some txHash := by
            simp [withLTags]
          rw [addSpendToMempool_cons_of_free hfree, mempoolLTags_addSpendToMempool hadded]
            at hunchanged
          simp [Free, CSparkMempoolState.hasLTag, ← hunchanged] at hfree
        · exact Or.inr ⟨tag, rfl, hfree⟩
  · rintro (⟨hnodup, hall⟩ | ⟨tag, hhead, hused⟩)
    · rw [addSpendToMempool_eq_true_iff.mpr ⟨hnodup, hall, rfl⟩]
      refine ⟨fun h => (Bool.true_eq_false_eq_False h).elim, fun _ => ⟨?_, fun _ => rfl⟩⟩
      intro lTag hmem
      simpa [CSparkMempoolState.hasLTag] using (hall lTag hmem).2
    · obtain ⟨rest, rfl⟩ : ∃ rest, lTags = tag :: rest := List.head?_eq_some_iff.mp hhead
      rw [addSpendToMempool_cons_of_not_free hused]
      exact ⟨fun _ => rfl, fun h => (Bool.false_ne_true h).elim⟩

/-- A chain in which the tag `1` is spent. -/
def oneUsedTag : CSparkState Nat Nat where
  maxCoinInGroup := 1
  startGroupSize := 1
  usedLTags lTag := if lTag = 1 then some 1 else none

/-- The second tag is spent in the chain; the first one stays in the mempool although the
spend is refused. -/
theorem addSpendToMempool_keeps_first_tag : (oneUsedTag.addSpendToMempool 7 [0, 1] {}).1 = false ∧
      (oneUsedTag.addSpendToMempool 7 [0, 1] {}).2.mempoolLTags 0 = some 7 ∧
      ({} : CSparkMempoolState Nat).mempoolLTags 0 = none := by
  decide

end CSparkState

end Firo.Spark
