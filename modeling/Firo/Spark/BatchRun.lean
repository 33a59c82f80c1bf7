import Firo.Spark.BatchFrame

/-! The spends that `BatchProofContainer` holds back, along the calls of `ConnectBlock`,
`DisconnectTip`, the end of `ActivateBestChain` and `Shutdown`. -/
namespace Firo.Spark

open Firo.Lib BatchProofContainer
open List hiding lt_irrefl

variable {Coin Tag Proof : Type}

section

variable {Spend : Type} {b : BatchProofContainer Spend} {passed : Bool}

lemma BatchProofContainer.mem_retained_finalize {entry} : entry ∈ b.finalize.retained ↔
      entry ∈ b.retained ∨ (b.fCollectProofs = true ∧ entry ∈ b.temporary) := by
  unfold finalize retained temporary
  cases b.fCollectProofs with
  | false => simp
  | true =>
    simp only [if_true, mem_append]
    tauto

def BatchProofContainer.verifiedBy (b : BatchProofContainer Spend) (passed : Bool) :
    List (Spend × Uint256) :=
  if !b.fCollectProofs && b.batchSparkResult passed then b.retained else []

lemma BatchProofContainer.retained_batchSpark :
    (b.batchSpark passed).retained = if b.batchSparkResult passed then [] else b.retained := by
  unfold batchSpark batchSparkResult retained
  cases hempty : b.sparkTransactions.isEmpty && b.historicalSparkTransactions.isEmpty with
  | true =>
    rw [Bool.and_eq_true, List.isEmpty_iff, List.isEmpty_iff] at hempty
    simp [hempty.1, hempty.2]
  | false =>
    cases b.fBatchFailed with
    | true => simp
    | false =>
      cases passed with
      | true => simp
      | false => simp

variable (b passed) in
lemma BatchProofContainer.retained_verifyPending :
    (b.verifyPending passed).retained ++ b.verifiedBy passed = b.retained ∧
      ((b.verifyPending passed).retained ≠ [] → (b.verifyPending passed).recoveryMarker = true ∨
          (b.verifyPending passed).recoveryMarker = b.recoveryMarker) := by
  have hinit : b.init.retained = b.retained := rfl
  have hresult : b.init.batchSparkResult passed = b.batchSparkResult passed := rfl
  have hspark : (b.init.batchSpark passed).retained = _ := retained_batchSpark
  rw [hinit, hresult] at hspark
  unfold verifyPending verifiedBy
  cases b.fCollectProofs with
  | true => exact ⟨append_nil _, fun _ => .inr rfl⟩
  | false =>
    change (b.init.batchSpark passed).retained ++ _ = _ ∧
      ((b.init.batchSpark passed).retained ≠ [] → _)
    rw [hspark]
    cases b.batchSparkResult passed with
    | true => exact ⟨rfl, fun h => absurd rfl h⟩
    | false => exact ⟨append_nil _, fun _ => .inl rfl⟩

variable [DecidableEq Tag] {b : BatchProofContainer (SpendTransaction Coin Tag Proof)}

variable {entry : SpendTransaction Coin Tag Proof × Uint256}
  {spends : List (SpendTransaction Coin Tag Proof)}

lemma BatchProofContainer.mem_retained_remove {sp} :
    entry ∈ (b.remove sp).retained ↔ entry ∈ b.retained ∧ entry.1.T ≠ sp.T := by
  simp only [remove, retained, mem_append, mem_filter, bne_iff_ne]
  tauto

lemma BatchProofContainer.mem_retained_foldl_remove : entry ∈ (spends.foldl remove b).retained ↔
      entry ∈ b.retained ∧ ∀ sp ∈ spends, entry.1.T ≠ sp.T := by
  induction spends generalizing b with
  | nil => simp
  | cons sp rest ih =>
    rw [foldl_cons, ih, mem_retained_remove, forall_mem_cons, and_assoc]

lemma BatchProofContainer.recoveryMarker_foldl_remove :
    (spends.foldl remove b).recoveryMarker = b.recoveryMarker := by
  induction spends generalizing b with
  | nil => rfl
  | cons sp rest ih => exact ih

end

variable {b : BatchProofContainer (SpendTransaction Coin Tag Proof)}

section

variable {env : SparkEnv Coin Tag Proof} {cp : ConsensusParams} {v : View Coin Tag}
  {nHeight : Int} {tx : CTransaction} {ctx ctx' : CheckCtx Coin Tag Proof}
  {info info' : CSparkTxInfo Coin Tag}

/-- The entry of the batch is the spend of the transaction, with the outputs, the cover sets
and the transparent value with which it is verified. -/
def IsSpendOf (env : SparkEnv Coin Tag Proof) (tx : CTransaction)
    (entry : SpendTransaction Coin Tag Proof × Uint256) : Prop :=
  entry.2 = env.getHash tx ∧ ∃ spend, parseSparkSpend env tx = .ok spend ∧
    entry.1 = { spend with
      vout := entry.1.vout
      outCoins := entry.1.outCoins
      coverSetSizes := entry.1.coverSetSizes
      coverSetRepresentations := entry.1.coverSetRepresentations }

lemma IsSpendOf.tags {entry}
    (h : IsSpendOf env tx entry) : getSparkUsedTags env tx = entry.1.T := by
  obtain ⟨-, spend, hparse, hentry⟩ := h
  rw [getSparkUsedTags, hparse, hentry]

lemma AcceptedSpend.isSpendOf {g} (a : AcceptedSpend env cp v g tx) :
    IsSpendOf env tx (a.verified, env.getHash tx) := by
  obtain ⟨hverified, -⟩ := completeSpend_eq_ok a.verified_eq
  obtain ⟨sizes, reps, hsets⟩ := SpendTransaction.setCoverSets_eq
    { a.spend with outCoins := a.outCoins } (a.sources.map fun s => (s.1, s.2.2))
  refine ⟨rfl, a.spend, a.parse_eq, ?_⟩
  rw [hverified, hsets]

/-- What the checks of transactions do to the batch: they add spends of theirs to the
temporary lists. -/
structure Gathers (env : SparkEnv Coin Tag Proof) (txs : List CTransaction)
    (b b' : BatchProofContainer (SpendTransaction Coin Tag Proof)) : Prop where
  retained_eq : b'.retained = b.retained
  marker_eq : b'.recoveryMarker = b.recoveryMarker
  entries : ∀ entry ∈ b'.temporary, entry ∈ b.temporary ∨
    ∃ tx ∈ txs, tx.isSparkSpend = true ∧ IsSpendOf env tx entry

lemma Gathers.refl (txs) (b) : Gathers env txs b b :=
  ⟨rfl, rfl, fun _ h => .inl h⟩

lemma Gathers.collect {g g'} (hspend : tx.isSparkSpend = true) (a : AcceptedSpend env cp v g' tx) :
    Gathers env [tx] b (b.collect g a.verified (env.getHash tx)) := by
  refine ⟨?_, ?_, fun entry hentry => ?_⟩
  · unfold BatchProofContainer.collect
    split <;> rfl
  · unfold BatchProofContainer.collect
    split <;> rfl
  · rcases mem_temporary_collect.mp hentry with hold | rfl
    · exact .inl hold
    · exact .inr ⟨tx, mem_singleton_self _, hspend, a.isSpendOf⟩

variable [DecidableEq Tag]

lemma TxAccepted.gathers (h : TxAccepted env cp v nHeight tx ctx info ctx' info') :
    Gathers env [tx] ctx.batch ctx'.batch := by
  cases h with
  | unchecked => exact Gathers.refl _ _
  | mint _ _ _ _ hctx =>
    subst hctx
    exact Gathers.refl _ _
  | spend hspend _ a hverified _ _ _ _ hctx =>
    subst hctx
    cases hverified with
    | collected _ hctx₁ =>
      subst hctx₁
      exact Gathers.collect hspend a
    | cached _ _ hctx₁ =>
      subst hctx₁
      exact Gathers.refl _ _
    | verified _ _ hctx₁ =>
      subst hctx₁
      exact Gathers.refl _ _

lemma TxsAccepted.gathers {txIds} {vtx}
    (h : TxsAccepted env cp v nHeight txIds vtx ctx info ctx' info') :
    Gathers env vtx ctx.batch ctx'.batch := by
  induction h with
  | nil => exact Gathers.refl _ _
  | @cons txIds tx rest ctx info ctx₁ info₁ ctx' info' _ htx _ ih =>
    have hfirst := htx.gathers
    refine ⟨ih.retained_eq.trans hfirst.retained_eq, ih.marker_eq.trans hfirst.marker_eq, ?_⟩
    intro entry hentry
    rcases ih.entries entry hentry with hentry₁ | ⟨tx', htx', hspend⟩
    · rcases hfirst.entries entry hentry₁ with hold | ⟨tx', htx', hspend⟩
      · exact .inl hold
      · obtain rfl := mem_singleton.mp htx'
        exact .inr ⟨tx', mem_cons_self, hspend⟩
    · exact .inr ⟨tx', mem_cons_of_mem _ htx', hspend⟩

end

/-- The calls on the batch. `old` tells whether the block, or the new tip, is older than a
day, and `passed` whether the pending batch verifies. -/
inductive BatchCall (Coin Tag : Type) where
  | connectTip (block : CBlock) (other : OtherChecks)
  | checkBlock (index : CBlockIndex Coin Tag) (other : OtherChecks) (isVerifyDB : Bool)
  | disconnectTip
  | activateBestChain (old passed : Bool)
  | shutdown (passed : Bool)

def shouldBatchSparkProofs (batching old : Bool) : Bool :=
  old && batching

def OtherChecks.underBatching (batching : Bool) (other : OtherChecks) : OtherChecks :=
  { other with
    shouldBatchSparkProofs := Spark.shouldBatchSparkProofs batching other.shouldBatchSparkProofs }

/-- A node with the history of its batch: which blocks were last connected with batching
on, and the spends of the batches that verified. -/
structure BatchRun (Coin Tag Proof : Type) where
  node : Node Coin Tag Proof
  admitted : Uint256 → Bool := fun _ => false
  verified : List (SpendTransaction Coin Tag Proof × Uint256) := []

namespace BatchRun

def initial (maxCoinInGroup startGroupSize : Nat) (fReindex : Bool) : BatchRun Coin Tag Proof where
  node := { (Node.initial maxCoinInGroup startGroupSize : Node Coin Tag Proof) with
    batch := { fReindex } }

def verifyPending (r : BatchRun Coin Tag Proof)
    (b : BatchProofContainer (SpendTransaction Coin Tag Proof)) (passed : Bool) :
    BatchRun Coin Tag Proof :=
  { r with
    node := { r.node with batch := b.verifyPending passed }
    verified := b.verifiedBy passed ++ r.verified }

variable (env : SparkEnv Coin Tag Proof) (batching : Bool)

/-- No spend escapes verification: those of the blocks that were admitted with batching on
are pending or verified, the pending ones are of the active chain, and the recovery marker
is there while one is pending. -/
structure NoEscape (r : BatchRun Coin Tag Proof) : Prop where
  collected : ∀ index ∈ r.node.chain, r.admitted index.hash = true →
    ∀ tx ∈ index.block.vtx, tx.isSparkSpend = true →
      ∃ entry ∈ r.node.batch.retained ++ r.verified, IsSpendOf env tx entry
  active : ∀ entry ∈ r.node.batch.retained, ∃ index ∈ r.node.chain,
    ∃ tx ∈ index.block.vtx, tx.isSparkSpend = true ∧ IsSpendOf env tx entry
  marked : r.node.batch.retained ≠ [] → r.node.batch.recoveryMarker = true

/-- No block that stays in the chain has a spend with the linking tags of one of the tip,
and at a shutdown no spends are left of a block that was not connected. -/
def Clean (r : BatchRun Coin Tag Proof) : BatchCall Coin Tag → Prop
  | .disconnectTip => ∀ tip ∈ r.node.chain.head?, ∀ index ∈ r.node.chain.tail,
    ∀ tx ∈ tip.block.vtx, tx.isSparkSpend = true →
    ∀ tx' ∈ index.block.vtx, tx'.isSparkSpend = true →
      getSparkUsedTags env tx ≠ getSparkUsedTags env tx'
  | .shutdown _ =>
    r.node.batch.fCollectProofs = true → r.node.batch.temporary.isEmpty = true
  | _ => True

/-- The invariant of a run: without the argument `-batching` nothing is ever pending. -/
structure Sound (r : BatchRun Coin Tag Proof) : Prop extends NoEscape env r where
  off : batching = false → r.node.batch.retained = []

variable {env batching} {r r' : BatchRun Coin Tag Proof}

lemma Sound.initial (maxCoinInGroup startGroupSize : Nat) (fReindex : Bool) :
    Sound env batching (initial maxCoinInGroup startGroupSize fReindex) where
  collected _ h := absurd h not_mem_nil
  active _ h := absurd h not_mem_nil
  marked h := absurd rfl h
  off _ := rfl

variable {n : Node Coin Tag Proof}

lemma Sound.of_holds (h : Sound env batching r) (hn : r.node.Holds n) :
    Sound env batching { r with node := n } := by
  obtain ⟨hchain, hpending⟩ := hn
  have hretained := hpending.retained_eq
  refine ⟨⟨?_, ?_, ?_⟩, ?_⟩
  · simpa only [hchain, hretained] using h.collected
  · simpa only [hchain, hretained] using h.active
  · intro hne
    rw [hretained] at hne
    exact hpending.recoveryMarker (h.marked hne)
  · simpa only [hretained] using h.off

lemma Sound.verifyPending {passed : Bool} (h : Sound env batching r)
    (hretained : b.retained = r.node.batch.retained)
    (hmarker : b.recoveryMarker = r.node.batch.recoveryMarker) :
    Sound env batching (r.verifyPending b passed) := by
  obtain ⟨hsplit, hmarked⟩ := b.retained_verifyPending passed
  rw [hretained] at hsplit
  refine ⟨⟨?_, ?_, ?_⟩, ?_⟩
  · intro index hindex hadmitted tx htx hspend
    obtain ⟨entry, hentry, hof⟩ := h.collected index hindex hadmitted tx htx hspend
    refine ⟨entry, ?_, hof⟩
    rw [← hsplit, append_assoc] at hentry
    exact hentry
  · intro entry hentry
    apply h.active
    rw [← hsplit]
    exact mem_append_left _ hentry
  · intro hne
    rcases hmarked hne with htrue | hsame
    · exact htrue
    · have hold : r.node.batch.retained ≠ [] := by
        rw [← hsplit]
        exact append_ne_nil_of_left_ne_nil hne _
      exact (hsame.trans hmarker).trans (h.marked hold)
  · intro hoff
    rw [h.off hoff] at hsplit
    exact (append_eq_nil_iff.mp hsplit).1

lemma Sound.shutdown {passed : Bool} (h : Sound env batching r)
    (hclean : r.Clean env (.shutdown passed)) :
    Sound env batching (r.verifyPending r.node.batch.finalize passed) := by
  have hclean' : r.node.batch.fCollectProofs = true → r.node.batch.temporary = [] :=
    fun hcollect => List.isEmpty_iff.mp (hclean hcollect)
  apply h.verifyPending
  · unfold BatchProofContainer.temporary at hclean'
    unfold BatchProofContainer.finalize BatchProofContainer.retained
    cases hcollect : r.node.batch.fCollectProofs with
    | false => rfl
    | true =>
      obtain ⟨htemp, hhistorical⟩ := append_eq_nil_iff.mp (hclean' hcollect)
      simp [htemp, hhistorical]
  · unfold BatchProofContainer.finalize
    cases r.node.batch.fCollectProofs <;> rfl

variable [DecidableEq Coin] [DecidableEq Tag]

lemma disconnectTip_batch {n n' : Node Coin Tag Proof}
    (h : n.disconnectTip env batching = some n') :
    ∃ tip chain, n.chain = tip :: chain ∧ n'.chain = chain ∧ n'.batch =
      if batching then
        (sparkTransactionsToRemove env tip.block).foldl BatchProofContainer.remove n.batch
      else n.batch := by
  unfold Node.disconnectTip at h
  split at h
  case h_1 => cases h
  case h_2 => cases h
  case h_3 tip chain _ hchain =>
    obtain ⟨s, -, hn'⟩ := Option.bind_eq_some_iff.mp h
    cases hn'
    exact ⟨tip, chain, hchain, rfl, rfl⟩

omit [DecidableEq Coin] [DecidableEq Tag] in
lemma mem_sparkTransactionsToRemove {block} {sp} : sp ∈ sparkTransactionsToRemove env block ↔
      ∃ tx ∈ block.vtx, tx.isSparkSpend = true ∧ parseSparkSpend env tx = .ok sp := by
  unfold sparkTransactionsToRemove
  rw [mem_filterMap]
  apply exists_congr
  intro tx
  cases tx.isSparkSpend with
  | false => simp
  | true => simp [except_toOption_eq_some]

lemma Sound.disconnectTip (h : Sound env batching r) (hclean : r.Clean env .disconnectTip)
    (hstep : r.node.disconnectTip env batching = some n) :
    Sound env batching { r with node := n } := by
  obtain ⟨tip, chain, hchain, hchain', hbatch⟩ := disconnectTip_batch hstep
  cases batching with
  | false =>
    -- nothing is pending
    have hnil : n.batch.retained = [] := by
      rw [hbatch]
      exact h.off rfl
    refine ⟨⟨?_, ?_, ?_⟩, fun _ => hnil⟩
    · intro index hindex hadmitted tx htx hspend
      rw [hchain'] at hindex
      obtain ⟨entry, hentry, hof⟩ := h.collected index
        (by rw [hchain]; exact mem_cons_of_mem _ hindex) hadmitted tx htx hspend
      rw [h.off rfl] at hentry
      exact ⟨entry, by rwa [hnil], hof⟩
    · intro entry hentry
      rw [hnil] at hentry
      exact absurd hentry not_mem_nil
    · exact fun hne => absurd hnil hne
  | true =>
    have hmem : ∀ entry, entry ∈ n.batch.retained ↔ entry ∈ r.node.batch.retained ∧
        ∀ sp ∈ sparkTransactionsToRemove env tip.block, entry.1.T ≠ sp.T := by
      intro entry
      rw [hbatch]
      exact mem_retained_foldl_remove
    refine ⟨⟨?_, ?_, ?_⟩, nofun⟩
    · intro index hindex hadmitted tx htx hspend
      rw [hchain'] at hindex
      obtain ⟨entry, hentry, hof⟩ := h.collected index
        (by rw [hchain]; exact mem_cons_of_mem _ hindex) hadmitted tx htx hspend
      refine ⟨entry, ?_, hof⟩
      rw [mem_append] at hentry ⊢
      refine hentry.imp_left fun hpending => (hmem entry).mpr ⟨hpending, fun sp hsp heq => ?_⟩
      obtain ⟨tx₀, htx₀, hspend₀, hparse⟩ := mem_sparkTransactionsToRemove.mp hsp
      have htags : getSparkUsedTags env tx₀ = sp.T := by rw [getSparkUsedTags, hparse]
      refine hclean tip (by rw [hchain]; rfl) index (by rwa [hchain]) tx₀ htx₀ hspend₀ tx htx
        hspend ?_
      rw [htags, hof.tags, heq]
    · intro entry hentry
      obtain ⟨hpending, hkept⟩ := (hmem entry).mp hentry
      obtain ⟨index, hindex, tx, htx, hspend, hof⟩ := h.active entry hpending
      rw [hchain] at hindex
      rcases mem_cons.mp hindex with rfl | hindex
      · -- the spends of the block itself are gone
        obtain ⟨-, spend, hparse, heq⟩ := hof
        refine absurd ?_ (hkept spend (mem_sparkTransactionsToRemove.mpr ⟨tx, htx, hspend, hparse⟩))
        rw [heq]
      · exact ⟨index, by rwa [hchain'], tx, htx, hspend, hof⟩
    · intro hne
      have hmarker : n.batch.recoveryMarker = r.node.batch.recoveryMarker := by
        rw [hbatch]
        exact recoveryMarker_foldl_remove
      obtain ⟨entry, hentry⟩ := exists_mem_of_ne_nil _ hne
      exact hmarker.trans (h.marked (ne_nil_of_mem ((hmem entry).mp hentry).1))

variable {cp : ConsensusParams} {block : CBlock} {other : OtherChecks}

lemma Connection.mem_retained {n n₁} {index b} (c : Connection env cp other n index n₁ b) :
    (∀ entry ∈ n.batch.retained, entry ∈ n₁.batch.retained) ∧
    (∀ entry ∈ n₁.batch.retained, entry ∈ n.batch.retained ∨ (other.shouldBatchSparkProofs = true ∧
        ∃ tx ∈ index.block.vtx, tx.isSparkSpend = true ∧ IsSpendOf env tx entry)) ∧
    (other.shouldBatchSparkProofs = true → ∀ tx ∈ index.block.vtx, tx.isSparkSpend = true →
      ∃ entry ∈ n₁.batch.retained, IsSpendOf env tx entry) ∧
    n₁.batch.recoveryMarker = (n.batch.recoveryMarker || other.shouldBatchSparkProofs) := by
  have hcollects := c.accepted.collects
  have hgathers := c.accepted.gathers
  have hretained : c.ctx.batch.retained = n.batch.retained := hgathers.retained_eq
  have hflag : c.ctx.batch.fCollectProofs = other.shouldBatchSparkProofs := hcollects.collects_eq
  rw [c.batch_eq]
  refine ⟨?_, ?_, ?_, ?_⟩
  · intro entry hentry
    exact mem_retained_finalize.mpr (.inl (by rwa [hretained]))
  · intro entry hentry
    rcases mem_retained_finalize.mp hentry with hold | ⟨hcollect, htemp⟩
    · exact .inl (by rwa [hretained] at hold)
    · -- the temporary lists were empty when the checks started
      rcases hgathers.entries entry htemp with hstart | hspend
      · exact absurd hstart not_mem_nil
      · exact .inr ⟨hflag ▸ hcollect, hspend⟩
  · intro hbatch tx htx hspend
    obtain ⟨a, ha⟩ := hcollects.spends tx htx hspend
    refine ⟨_, mem_retained_finalize.mpr (.inr ⟨?_, ha hbatch⟩), a.isSpendOf⟩
    rw [hflag, hbatch]
  · have hmarker : c.ctx.batch.finalize.recoveryMarker = c.ctx.batch.recoveryMarker := by
      unfold BatchProofContainer.finalize
      cases c.ctx.batch.fCollectProofs <;> rfl
    rw [hmarker, hgathers.marker_eq]
    rfl

lemma Sound.connectTip (hinv : NodeInv env cp r.node) (h : Sound env batching r)
    (hstep : r.node.connectTip env cp block (other.underBatching batching) = some n) :
    Sound env batching { r with
      node := n
      admitted := if r.node.chain.length < n.chain.length then
          Function.update r.admitted block.hash
            (shouldBatchSparkProofs batching other.shouldBatchSparkProofs)
        else r.admitted } := by
  obtain ⟨index, hentry, htip⟩ := hinv.connectTip_cases hstep
  cases htip with
  | refused =>
    rw [if_neg (lt_irrefl _)]
    exact h
  | failed checkedSpends batch b hb =>
    have hholds := Node.Holds.connectTip hstep rfl
    simp only [Node.withCaches, lt_self_iff_false, if_false]
    exact h.of_holds hholds
  | genesis hchain =>
    obtain ⟨hblock, rfl⟩ := Node.indexOf_nil hchain hentry
    have hnil : r.node.batch.retained = [] := by
      apply eq_nil_iff_forall_not_mem.mpr
      intro entry hmem
      obtain ⟨index, hindex, -⟩ := h.active entry hmem
      rw [hchain] at hindex
      exact absurd hindex not_mem_nil
    refine ⟨⟨?_, ?_, ?_⟩, fun _ => hnil⟩
    · intro index hindex _ tx htx hspend
      obtain rfl := mem_singleton.mp hindex
      have hspark := cp.genesis_noSpark tx (hblock ▸ htx)
      simp [CTransaction.isSparkTransaction, hspend] at hspark
    · intro entry hmem
      rw [show r.node.batch.retained = [] from hnil] at hmem
      exact absurd hmem not_mem_nil
    · exact fun hne => absurd hnil hne
  | connected hnext _ n₁ b c =>
    have hresult := c.result hinv.namesInv hnext.recordable
    have hhash : b.hash = block.hash := congrArg CBlock.hash (hresult.block_eq.trans hnext.block_eq)
    obtain ⟨hold, hnew, hspends, hmarker⟩ := Connection.mem_retained c
    rw [if_pos (by simp)]
    refine ⟨⟨?_, ?_, ?_⟩, ?_⟩
    · intro index' hindex' hadmitted tx htx hspend
      change Function.update r.admitted block.hash
        (shouldBatchSparkProofs batching other.shouldBatchSparkProofs) index'.hash = true
        at hadmitted
      rcases mem_cons.mp hindex' with rfl | hmem
      · rw [hhash, Function.update_self] at hadmitted
        rw [hresult.block_eq] at htx
        obtain ⟨entry, hentry', hof⟩ := hspends hadmitted tx htx hspend
        exact ⟨entry, mem_append_left _ hentry', hof⟩
      · have hne : index'.hash ≠ block.hash := by
          rw [← hhash, show b.hash = index.hash from congrArg CBlock.hash hresult.block_eq]
          exact hnext.hash_ne index' hmem
        rw [Function.update_of_ne hne] at hadmitted
        obtain ⟨entry, hentry', hof⟩ := h.collected index' hmem hadmitted tx htx hspend
        refine ⟨entry, ?_, hof⟩
        rw [mem_append] at hentry' ⊢
        exact hentry'.imp_left (hold entry)
    · intro entry hentry'
      rcases hnew entry hentry' with hpending | ⟨-, tx, htx, hspend⟩
      · obtain ⟨index', hmem, hof⟩ := h.active entry hpending
        exact ⟨index', mem_cons_of_mem _ hmem, hof⟩
      · exact ⟨b, mem_cons_self, tx, by rwa [hresult.block_eq], hspend⟩
    · intro hne
      obtain ⟨entry, hentry'⟩ := exists_mem_of_ne_nil _ hne
      change n₁.batch.recoveryMarker = true
      rw [hmarker]
      rcases hnew entry hentry' with hpending | ⟨hbatch, -⟩
      · rw [h.marked (ne_nil_of_mem hpending), Bool.true_or]
      · rw [hbatch, Bool.or_true]
    · intro hoff
      apply eq_nil_iff_forall_not_mem.mpr
      intro entry hentry'
      rcases hnew entry hentry' with hpending | ⟨hbatch, -⟩
      · rw [h.off hoff] at hpending
        exact absurd hpending not_mem_nil
      · subst hoff
        simp [OtherChecks.underBatching, shouldBatchSparkProofs] at hbatch

variable (env batching) in
def step (cp : ConsensusParams) (r : BatchRun Coin Tag Proof) : BatchCall Coin Tag →
    Option (BatchRun Coin Tag Proof)
  | .connectTip block other => do
    let n ← r.node.connectTip env cp block (other.underBatching batching)
    some { r with
      node := n
      admitted := if r.node.chain.length < n.chain.length then
          Function.update r.admitted block.hash
            (shouldBatchSparkProofs batching other.shouldBatchSparkProofs)
        else r.admitted }
  | .checkBlock index other isVerifyDB => do
    let n ← r.node.checkBlock env cp index (other.underBatching batching) isVerifyDB
    some { r with node := n }
  | .disconnectTip => do
    let n ← r.node.disconnectTip env batching
    some { r with node := n }
  | .activateBestChain old passed =>
    some (r.verifyPending
      { r.node.batch with fCollectProofs := shouldBatchSparkProofs batching old } passed)
  | .shutdown passed => some (r.verifyPending r.node.batch.finalize passed)

instance (r : BatchRun Coin Tag Proof) : (call : BatchCall Coin Tag) → Decidable (r.Clean env call)
  | .disconnectTip => inferInstanceAs (Decidable (∀ tip ∈ r.node.chain.head?,
      ∀ index ∈ r.node.chain.tail, ∀ tx ∈ tip.block.vtx, tx.isSparkSpend = true →
      ∀ tx' ∈ index.block.vtx, tx'.isSparkSpend = true →
        getSparkUsedTags env tx ≠ getSparkUsedTags env tx'))
  | .shutdown _ => inferInstanceAs (Decidable
      (r.node.batch.fCollectProofs = true → r.node.batch.temporary.isEmpty = true))
  | .connectTip _ _ | .checkBlock _ _ _ | .activateBestChain _ _ => .isTrue trivial

/-- A clean call keeps the node consistent and the pending proofs sound. -/
lemma Sound.step {call} (hinv : NodeInv env cp r.node) (h : Sound env batching r)
    (hclean : r.Clean env call) (hstep : r.step env batching cp call = some r') :
    NodeInv env cp r'.node ∧ Sound env batching r' := by
  cases call with
  | connectTip block other =>
    obtain ⟨n, hn, hr'⟩ := Option.bind_eq_some_iff.mp hstep
    cases hr'
    exact ⟨hinv.step (a := .connectTip block _) hn, h.connectTip hinv hn⟩
  | checkBlock index other isVerifyDB =>
    obtain ⟨n, hn, hr'⟩ := Option.bind_eq_some_iff.mp hstep
    cases hr'
    exact ⟨hinv.step (a := .checkBlock index _ isVerifyDB) hn,
      h.of_holds (Node.Holds.checkBlock hn)⟩
  | disconnectTip =>
    obtain ⟨n, hn, hr'⟩ := Option.bind_eq_some_iff.mp hstep
    cases hr'
    exact ⟨hinv.step (a := .disconnectTip batching) hn, h.disconnectTip hclean hn⟩
  | activateBestChain old passed =>
    cases hstep
    exact ⟨hinv.of_eq rfl rfl rfl rfl, h.verifyPending rfl rfl⟩
  | shutdown passed =>
    cases hstep
    exact ⟨hinv.of_eq rfl rfl rfl rfl, h.shutdown hclean⟩

/-- Along every run whose calls are clean no spend escapes verification. -/
theorem no_spend_escapes {maxCoinInGroup startGroupSize : Nat} {fReindex : Bool}
    (h : Reach (step env batching cp) (Clean env)
      (initial maxCoinInGroup startGroupSize fReindex) r) : r.NoEscape env := by
  have hinv : NodeInv env cp r.node ∧ Sound env batching r := by
    apply h.invariant (I := fun r => NodeInv env cp r.node ∧ Sound env batching r)
    · exact ⟨(NodeInv.initial maxCoinInGroup startGroupSize).of_eq rfl rfl rfl rfl,
        Sound.initial maxCoinInGroup startGroupSize fReindex⟩
    · intro r call r' hr hclean hstep
      exact hr.2.step hr.1 hclean hstep
  exact hinv.2.toNoEscape

end BatchRun

namespace Toy

/-- What is known outside the Spark code of a block that is older than a day. -/
def oldBlock : OtherChecks := { shouldBatchSparkProofs := true }

/-- A spend is collected, disconnected and collected again, and does not verify. -/
def collectedTwice : List (BatchCall Coin UInt8) :=
  [.connectTip (block 0 []) {}, .connectTip (block 1 [mintTx 1 [(7, 50)]]) oldBlock,
    .connectTip (block 2 [spendSeven 2 1 1 20]) oldBlock, .disconnectTip,
    .connectTip (block 2 [spendSeven 2 1 1 20]) oldBlock, .activateBestChain true true,
    .shutdown false]

/-- A block with a spend of a coin that was never minted is checked but not connected, and
the node shuts down. -/
def checkedOnly : List (BatchCall Coin UInt8) :=
  [.connectTip (block 0 []) {}, .connectTip (block 1 [mintTx 1 [(7, 50)]]) oldBlock,
    .checkBlock { block := block 2 [spendTx 2 [1, 1, 1, 0, 7, 60] [⟨59, [0]⟩]], nHeight := 2 }
      oldBlock false,
    .shutdown false]

end Toy

theorem no_spend_escapes_collectedTwice : ∃ r : BatchRun Toy.Coin UInt8 Toy.Coin,
      Reach (BatchRun.step Toy.env true (Toy.params 1))
        (BatchRun.Clean Toy.env) (BatchRun.initial 3 1 false) r ∧
      r.node.batch.retained.map Prod.snd = [2] ∧ r.NoEscape Toy.env := by
  have hrun : (Toy.collectedTwice.foldlM (fun r call => if BatchRun.Clean Toy.env r call then
        BatchRun.step Toy.env true (Toy.params 1) r call else none)
      (BatchRun.initial 3 1 false)).any
        (fun r => decide (r.node.batch.retained.map Prod.snd = [2])) = true := by
    decide +kernel
  obtain ⟨r, hr, htest⟩ := (Option.any_eq_true ..).mp hrun
  have hreach := Reach.of_foldlM_guarded .init hr
  exact ⟨r, hreach, of_decide_eq_true htest, BatchRun.no_spend_escapes hreach⟩

theorem checked_spend_pending : ∃ r : BatchRun Toy.Coin UInt8 Toy.Coin,
      Reach (BatchRun.step Toy.env true (Toy.params 1))
        (fun _ _ => True) (BatchRun.initial 3 1 false) r ∧
      (∀ index ∈ r.node.chain, ∀ tx ∈ index.block.vtx, tx.isSparkSpend = false) ∧
      r.node.batch.retained.map Prod.snd = [2] ∧ ¬ r.NoEscape Toy.env := by
  have hrun : (Toy.checkedOnly.foldlM (BatchRun.step Toy.env true (Toy.params 1))
      (BatchRun.initial 3 1 false)).any
      (fun r => decide ((∀ index ∈ r.node.chain, ∀ tx ∈ index.block.vtx,
        tx.isSparkSpend = false) ∧ r.node.batch.retained.map Prod.snd = [2])) = true := by
    decide +kernel
  obtain ⟨r, hr, htest⟩ := (Option.any_eq_true ..).mp hrun
  obtain ⟨hchain, hretained⟩ := of_decide_eq_true htest
  refine ⟨r, Reach.of_foldlM .init (fun _ _ _ => trivial) hr, hchain, hretained, fun h => ?_⟩
  obtain ⟨entry, hentry, -⟩ : ∃ entry ∈ r.node.batch.retained, entry.2 = (2 : Uint256) :=
    mem_map.mp (by rw [hretained]; exact mem_singleton_self _)
  obtain ⟨index, hindex, tx, htx, hspend, -⟩ := h.active entry hentry
  exact Bool.false_ne_true ((hchain index hindex tx htx).symm.trans hspend)

end Firo.Spark
