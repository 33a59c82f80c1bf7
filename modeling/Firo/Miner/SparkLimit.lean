import Firo.Miner.Template

/-! `AddToBlock` counts the amount of a Spark spend before it tests the limit of the block, so that
a spend that is left out takes away room from the later ones. `addPriorityTxs` tests the limit
beforehand; `addPackageTxs` does not. -/
namespace Firo.Miner

open Firo.Lib Firo.Spark CTxMemPool PackageState

variable {pool : CTxMemPool} {ctx : MinerContext} {txBlackList : SetEntries}
  {a : BlockAssembler} {e : CTxMemPoolEntry} {l : List CTxMemPoolEntry}

def sparkSpendTotal (l : List CTxMemPoolEntry) : Int :=
  ((l.filter fun e => e.tx.isSparkSpend).map fun e => getSpendTransparentAmount e.tx).sum

def Counted (a : BlockAssembler) : Prop :=
  a.nSparkSpendAmount = sparkSpendTotal a.vtx

/-- A spend within the limit of a transaction that exceeds the limit of the block by the
counter. -/
def Overruns (ctx : MinerContext) (a : BlockAssembler) (e : CTxMemPoolEntry) : Prop :=
  e.tx.isSparkSpend = true ∧
    getSpendTransparentAmount e.tx ≤ ctx.cp.getMaxValueSparkSpendPerTransaction ctx.nHeight ∧
    ctx.cp.getMaxValueSparkSpendPerBlock ctx.nHeight <
      a.nSparkSpendAmount + getSpendTransparentAmount e.tx

instance (a : BlockAssembler) (e : CTxMemPoolEntry) : Decidable (Overruns ctx a e) :=
  inferInstanceAs (Decidable (_ ∧ _ ∧ _))

lemma sparkSpendTotal_append_singleton (l) (e) :
    sparkSpendTotal (l ++ [e]) = sparkSpendTotal l + getSpendTransparentAmount e.tx := by
  unfold sparkSpendTotal
  rw [List.filter_append, List.map_append, List.sum_append]
  congr 1
  by_cases hspend : e.tx.isSparkSpend = true
  · simp [hspend]
  · simp [hspend, getSpendTransparentAmount]

lemma addToBlock_cases (ctx) (a) (e) :
    (Overruns ctx a e ∧ (a.addToBlock ctx e).vtx = a.vtx ∧ (a.addToBlock ctx e).nSparkSpendAmount =
        a.nSparkSpendAmount + getSpendTransparentAmount e.tx) ∨
    (¬ Overruns ctx a e ∧
      ctx.cp.getMaxValueSparkSpendPerTransaction ctx.nHeight < getSpendTransparentAmount e.tx ∧
      a.addToBlock ctx e = a) ∨
    (¬ Overruns ctx a e ∧ (a.addToBlock ctx e).vtx = a.vtx ++ [e] ∧
      (a.addToBlock ctx e).nSparkSpendAmount =
        a.nSparkSpendAmount + getSpendTransparentAmount e.tx) := by
  unfold BlockAssembler.addToBlock
  split
  case isTrue hspend =>
    dsimp only
    split
    case isTrue hover => exact .inr (.inl ⟨fun h => absurd h.2.1 (not_le.mpr hover), hover, rfl⟩)
    case isFalse hwithin =>
      split
      case isTrue hover => exact .inl ⟨⟨hspend, not_lt.mp hwithin, hover⟩, rfl, rfl⟩
      case isFalse hblock => exact .inr (.inr ⟨fun h => hblock h.2.2, rfl, rfl⟩)
  case isFalse hspend =>
    have hzero : getSpendTransparentAmount e.tx = 0 := if_neg hspend
    refine .inr (.inr ⟨fun h => hspend h.1, rfl, ?_⟩)
    rw [hzero, add_zero]
    rfl

/-- The counter stays exact unless a spend with an amount is left out for the limit of the
block. -/
lemma Counted.addToBlock_iff (h : Counted a) :
    Counted (a.addToBlock ctx e) ↔ ¬ Overruns ctx a e ∨ getSpendTransparentAmount e.tx = 0 := by
  unfold Counted at h ⊢
  rcases addToBlock_cases ctx a e with ⟨hover, hvtx, hcount⟩ | ⟨hover, -, heq⟩ |
      ⟨hover, hvtx, hcount⟩
  · rw [hvtx, hcount, h, add_eq_left]
    exact ⟨.inr, fun hor => hor.resolve_left fun hnot => hnot hover⟩
  · rw [heq]
    exact iff_of_true h (.inl hover)
  · rw [hvtx, hcount, h, sparkSpendTotal_append_singleton]
    exact iff_of_true rfl (.inl hover)

lemma Counted.exceeds (h : Counted a) (hwithin : getSpendTransparentAmount e.tx ≤
      ctx.cp.getMaxValueSparkSpendPerTransaction ctx.nHeight)
    (hout : (a.addToBlock ctx e).vtx = a.vtx) :
    ctx.cp.getMaxValueSparkSpendPerBlock ctx.nHeight <
      sparkSpendTotal a.vtx + getSpendTransparentAmount e.tx := by
  rcases addToBlock_cases ctx a e with ⟨hover, -, -⟩ | ⟨-, hlarge, -⟩ | ⟨-, hvtx, -⟩
  · rw [← show a.nSparkSpendAmount = sparkSpendTotal a.vtx from h]
    exact hover.2.2
  · exact absurd hwithin (not_le.mpr hlarge)
  · rw [hout] at hvtx
    exact absurd (List.self_eq_append_right.mp hvtx) (List.cons_ne_nil _ _)

/-- No spend of the list overruns the limit of the block when its turn comes. -/
def NoOverrun (ctx : MinerContext) : List CTxMemPoolEntry → BlockAssembler → Prop
  | [], _ => True
  | e :: l, a => ¬ Overruns ctx a e ∧ NoOverrun ctx l (a.addToBlock ctx e)

instance decidableNoOverrun (ctx : MinerContext) :
    (l : List CTxMemPoolEntry) → (a : BlockAssembler) → Decidable (NoOverrun ctx l a)
  | [], _ => isTrue trivial
  | e :: l, a =>
    have := decidableNoOverrun ctx l (a.addToBlock ctx e)
    inferInstanceAs (Decidable (¬ Overruns ctx a e ∧ NoOverrun ctx l (a.addToBlock ctx e)))

lemma Counted.foldl (h : Counted a) (hl : NoOverrun ctx l a) :
    Counted (l.foldl (fun a e => a.addToBlock ctx e) a) := by
  induction l generalizing a with
  | nil => exact h
  | cons e l ih => exact ih (h.addToBlock_iff.mpr (.inl hl.1)) hl.2

variable {nBlockPrioritySize : Nat} {st st' : PackageState}

lemma PriorityState.next_assembler {st st' : PriorityState}
    (h : (st.round pool ctx nBlockPrioritySize).next = some st') :
    (∃ lastFewTxs blockFinished, st'.assembler = { st.assembler with lastFewTxs, blockFinished }) ∨
    ∃ e, (st.assembler.testForBlock ctx e).1 = true ∧
      st'.assembler = st.assembler.addToBlock ctx e := by
  unfold PriorityState.round at h
  split at h
  case isTrue =>
    cases h
    exact .inl ⟨_, _, rfl⟩
  case isFalse =>
    split at h
    case h_1 =>
      cases h
      exact .inl ⟨_, _, rfl⟩
    case h_2 top _ =>
      unfold PriorityState.consider at h
      dsimp only at h
      split at h
      · cases h
      split at h
      · cases h
        exact .inl ⟨_, _, rfl⟩
      split at h
      · cases h
        exact .inl ⟨_, _, rfl⟩
      obtain ⟨hpass, lastFewTxs, blockFinished, hmark⟩ := testForBlock_spec ctx st.assembler top.2
      split at h
      case isTrue hfits =>
        refine .inr ⟨top.2, hfits, ?_⟩
        rw [(hpass hfits).1] at h
        split at h
        · cases h
          rfl
        · cases h
          rfl
      case isFalse =>
        cases h
        exact .inl ⟨lastFewTxs, blockFinished, hmark⟩

section

variable (pool ctx txBlackList)

def PackageState.candidate (st : PackageState) : Option CTxMemPoolModifiedEntry :=
  let modit := bestBy (compareModifiedEntry ctx) st.mapModifiedTx
  match st.mi, modit with
  | [], modit => modit
  | iter :: _, modit =>
    if st.skipMapTxEntry txBlackList iter then none
    else match modit with
      | some m =>
        if compareModifiedEntry ctx m (.ofEntry iter) then some m else some (.ofEntry iter)
      | none => some (.ofEntry iter)

/-- The package of an entry in the order of the calls of `AddToBlock`, if it passes the tests. -/
def PackageState.accepted (st : PackageState) (m : CTxMemPoolModifiedEntry) :
    List CTxMemPoolEntry :=
  let ancestors := insert m.iter
    ((pool.calculateMemPoolAncestors m.iter).filter (· ∉ st.assembler.inBlock))
  if m.iter ∈ st.assembler.inBlock ∨
      m.nModFeesWithAncestors < getFee ctx.args.blockmintxfee m.nSizeWithAncestors ∨
      st.assembler.testPackage ctx m.nSizeWithAncestors m.nSigOpCostWithAncestors = false ∨
      st.assembler.testPackageTransactions pool ctx ancestors = false then []
  else sortForBlock pool ancestors

def PackageState.offered (st : PackageState) : List CTxMemPoolEntry :=
  (st.candidate ctx txBlackList).elim [] (st.accepted pool ctx)

end

lemma PackageState.next_consider {fUsingModified : Bool} {m}
    (h : (st.consider pool ctx txBlackList fUsingModified m).next = some st') : st'.assembler =
      (st.accepted pool ctx m).foldl (fun a e => a.addToBlock ctx e) st.assembler := by
  have hfail : (st.fail fUsingModified m.iter).assembler = st.assembler := by
    unfold fail
    split
    · rfl
    · rfl
  unfold consider at h
  unfold accepted
  dsimp only at h ⊢
  split at h
  case isTrue hin => cases h
  case isFalse hin =>
    split at h
    case isTrue hfee =>
      cases h
      rw [if_pos (.inr (.inl hfee))]
      rfl
    case isFalse hfee =>
      split at h
      case isTrue htest =>
        rw [if_pos (.inr (.inr (.inl ((Bool.not_eq_true' _).mp htest))))]
        split at h
        · cases h
          exact hfail
        · cases h
          exact hfail
      case isFalse htest =>
        split at h
        case isTrue htxs =>
          cases h
          rw [if_pos (.inr (.inr (.inr ((Bool.not_eq_true' _).mp htxs))))]
          exact hfail
        case isFalse htxs =>
          cases h
          rw [if_neg]
          · rfl
          · rintro (hin' | hfee' | htest' | htxs')
            · exact hin hin'
            · exact hfee hfee'
            · exact htest ((Bool.not_eq_true' _).mpr htest')
            · exact htxs ((Bool.not_eq_true' _).mpr htxs')

lemma PackageState.next_assembler (h : (st.round pool ctx txBlackList).next = some st') :
    st'.assembler = (st.offered pool ctx txBlackList).foldl (fun a e => a.addToBlock ctx e)
      st.assembler := by
  unfold PackageState.round at h
  unfold offered candidate
  dsimp only at h ⊢
  cases hmi : st.mi with
  | nil =>
    rw [hmi] at h
    cases hbest : bestBy (compareModifiedEntry ctx) st.mapModifiedTx with
    | none =>
      rw [hbest] at h
      cases h
      rfl
    | some m =>
      rw [hbest] at h
      exact next_consider h
  | cons iter rest =>
    rw [hmi] at h
    dsimp only at h ⊢
    split at h
    case isTrue hskip =>
      cases h
      rw [if_pos hskip]
      rfl
    case isFalse hskip =>
      rw [if_neg hskip]
      cases hbest : bestBy (compareModifiedEntry ctx) st.mapModifiedTx with
      | none =>
        rw [hbest] at h
        have hnext := next_consider h
        exact hnext
      | some m =>
        rw [hbest] at h
        dsimp only at h ⊢
        split at h
        case isTrue hbetter =>
          rw [if_pos hbetter]
          exact next_consider h
        case isFalse hbetter =>
          rw [if_neg hbetter]
          have hnext := next_consider h
          exact hnext

lemma not_overruns_of_testForBlock (hfits : (a.testForBlock ctx e).1 = true) :
    ¬ Overruns ctx a e := by
  rintro ⟨hspend, -, hover⟩
  have hpass := ((testForBlock_spec ctx a e).1 hfits).2.2.2
  simp only [BlockAssembler.sparkSpendFits, hspend, Bool.not_true, Bool.false_or,
    Bool.and_eq_true, decide_eq_true_eq] at hpass
  omega

lemma Counted.priorityRounds {st} (h : Counted a)
    (hst : Rounds (PriorityState.round pool ctx nBlockPrioritySize) (fun _ => True)
      (.start pool txBlackList a) st) : Counted st.assembler := by
  refine hst.invariant (I := fun st => Counted st.assembler) h fun st _ st' hcount _ hnext => ?_
  rcases PriorityState.next_assembler hnext with ⟨_, _, heq⟩ | ⟨e, hfits, heq⟩
  · rw [heq]
    exact hcount
  · rw [heq]
    exact hcount.addToBlock_iff.mpr (.inl (not_overruns_of_testForBlock hfits))

lemma Counted.packageRounds (h : Counted a) (hst : Rounds (PackageState.round pool ctx txBlackList)
      (fun st => NoOverrun ctx (st.offered pool ctx txBlackList) st.assembler)
      (.start pool ctx txBlackList a) st) : Counted st.assembler := by
  refine hst.invariant (I := fun st => Counted st.assembler) h fun st _ st' hcount hok hnext => ?_
  rw [next_assembler hnext]
  exact hcount.foldl hok

/-- Along `addPriorityTxs` the counter has the Spark spends in the block, and so it has along
`addPackageTxs` as long as no spend overruns the limit of the block. Up to the first one that does,
a spend within the limit of a transaction is left out only if it does not fit. A single call of
`AddToBlock` keeps the counter exact if and only if it does not leave out an amount for the limit
of the block. -/
theorem sparkSpendAmount_exact (pool : CTxMemPool) (ctx : MinerContext) (txBlackList : SetEntries)
    (a : BlockAssembler) (ha : a.nSparkSpendAmount = sparkSpendTotal a.vtx) :
    (∀ nBlockPrioritySize st, Rounds (PriorityState.round pool ctx nBlockPrioritySize)
      (fun _ => True) (.start pool txBlackList a) st →
        st.assembler.nSparkSpendAmount = sparkSpendTotal st.assembler.vtx) ∧
    (∀ st, Rounds (PackageState.round pool ctx txBlackList)
      (fun st => NoOverrun ctx (st.offered pool ctx txBlackList) st.assembler)
      (.start pool ctx txBlackList a) st →
        st.assembler.nSparkSpendAmount = sparkSpendTotal st.assembler.vtx ∧
        ∀ l₁ e l₂, st.offered pool ctx txBlackList = l₁ ++ e :: l₂ →
          NoOverrun ctx l₁ st.assembler → ∀ b, b = l₁.foldl (fun a e => a.addToBlock ctx e)
            st.assembler →
          b.nSparkSpendAmount = sparkSpendTotal b.vtx ∧
          (getSpendTransparentAmount e.tx ≤ ctx.cp.getMaxValueSparkSpendPerTransaction ctx.nHeight →
            (b.addToBlock ctx e).vtx = b.vtx →
            ctx.cp.getMaxValueSparkSpendPerBlock ctx.nHeight <
              sparkSpendTotal b.vtx + getSpendTransparentAmount e.tx)) ∧
    ∀ b : BlockAssembler, b.nSparkSpendAmount = sparkSpendTotal b.vtx → ∀ e,
      ((b.addToBlock ctx e).nSparkSpendAmount = sparkSpendTotal (b.addToBlock ctx e).vtx ↔
        ¬ Overruns ctx b e ∨ getSpendTransparentAmount e.tx = 0) := by
  have hcount : Counted a := ha
  refine ⟨fun _ st hst => hcount.priorityRounds hst, fun st hst => ?_, fun b hb e => ?_⟩
  · have hst' := hcount.packageRounds hst
    refine ⟨hst', fun l₁ e l₂ _ hl₁ b hb => ?_⟩
    have hb' : Counted b := hb ▸ hst'.foldl hl₁
    exact ⟨hb', hb'.exceeds⟩
  · exact Counted.addToBlock_iff hb

def Toy.spark (number : Nat) (coins fee : Int) : CTxMemPoolEntry :=
  Toy.entry number { Toy.tx 3 TRANSACTION_SPARK_V2 [] with vout := [⟨coins * COIN, []⟩] } fee 1

def Toy.twoSpends : CTxMemPool := Toy.mempool [Toy.spark 2 400 800, Toy.spark 1 1000 900]

/-- Spends of 1000 and 400 coins stay below the limit of 1500. -/
theorem sparkSpendAmount_exact_twoSpends :
    ∃ st, Rounds (PackageState.round Toy.twoSpends (Toy.context Toy.args) ∅)
        (fun st => NoOverrun (Toy.context Toy.args) (st.offered Toy.twoSpends
          (Toy.context Toy.args) ∅) st.assembler)
        (.start Toy.twoSpends (Toy.context Toy.args) ∅ { fNeedSizeAccounting := false }) st ∧
      st.assembler.vtx = [Toy.spark 1 1000 900, Toy.spark 2 400 800] ∧
      st.assembler.nSparkSpendAmount = sparkSpendTotal st.assembler.vtx := by
  have hrun : ([(), ()].foldlM (fun st (_ : Unit) =>
        if NoOverrun (Toy.context Toy.args) (st.offered Toy.twoSpends
          (Toy.context Toy.args) ∅) st.assembler then
        (PackageState.round Toy.twoSpends (Toy.context Toy.args) ∅ st).next
        else none)
      (start Toy.twoSpends (Toy.context Toy.args) ∅ { fNeedSizeAccounting := false })).any
        (fun st => decide (st.assembler.vtx = [Toy.spark 1 1000 900, Toy.spark 2 400 800])) =
      true := by
    decide +kernel
  obtain ⟨st, hst, hvtx⟩ := (Option.any_eq_true _ _).mp hrun
  have hreach := Reach.of_foldlM_guarded .init hst
  exact ⟨st, hreach, of_decide_eq_true hvtx, ((sparkSpendAmount_exact _ _ _ _ rfl).2.1 st hreach).1⟩

/-- The limit of the block is 1500 coins. The second spend does not fit, but is counted, and the
third one, which fits, is left out too. -/
theorem third_spend_left_out :
    (Toy.mempool [Toy.spark 3 400 700, Toy.spark 2 1000 800, Toy.spark 1 1000 900]).Consistent ∧
    ∃ a, createNewBlock (Toy.mempool [Toy.spark 3 400 700, Toy.spark 2 1000 800,
        Toy.spark 1 1000 900]) (Toy.context Toy.args) Toy.noPayloads ∅ [] = some a ∧
      a.vtx = [Toy.spark 1 1000 900] ∧ a.nSparkSpendAmount = 2400 * COIN ∧
      sparkSpendTotal a.vtx = 1000 * COIN ∧
      sparkSpendTotal a.vtx + getSpendTransparentAmount (Toy.spark 3 400 700).tx ≤
        (Toy.context Toy.args).cp.getMaxValueSparkSpendPerBlock (Toy.context Toy.args).nHeight := by
  have hrun : (createNewBlock (Toy.mempool [Toy.spark 3 400 700, Toy.spark 2 1000 800,
      Toy.spark 1 1000 900]) (Toy.context Toy.args) Toy.noPayloads ∅ []).any (fun a => decide (
        a.vtx = [Toy.spark 1 1000 900] ∧ a.nSparkSpendAmount = 2400 * COIN ∧
        sparkSpendTotal a.vtx = 1000 * COIN ∧
        sparkSpendTotal a.vtx + getSpendTransparentAmount (Toy.spark 3 400 700).tx ≤
          (Toy.context Toy.args).cp.getMaxValueSparkSpendPerBlock
            (Toy.context Toy.args).nHeight)) = true := by
    decide +kernel
  obtain ⟨a, ha, htest⟩ := (Option.any_eq_true _ _).mp hrun
  refine ⟨?_, a, ha, of_decide_eq_true htest⟩
  constructor <;> decide +kernel

end Firo.Miner
