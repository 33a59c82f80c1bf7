import Firo.Spark.NodeInv

/-! The state records exactly the linking tags of the spends of the active chain, each of them once,
as long as every spend of a connected block is from a group that has a recorded mint. -/
namespace Firo.Spark

open Firo.Lib Prod CSparkState
open List hiding not_lt

variable {Coin Tag Proof : Type}

section

variable (env : SparkEnv Coin Tag Proof)

def CTransaction.lTags (tx : CTransaction) : List (Tag × Int) :=
  match parseSparkSpend env tx with
  | .ok sp => sp.lTags
  | .error _ => []

def CBlock.lTags (block : CBlock) : List (Tag × Int) :=
  block.vtx.flatMap fun tx => tx.lTags env

def CBlock.usedTags (block : CBlock) : List Tag :=
  block.vtx.flatMap (getSparkUsedTags env)

def usedTags (chain : List (CBlockIndex Coin Tag)) : List Tag :=
  chain.flatMap fun b => b.block.usedTags env

end

variable {env : SparkEnv Coin Tag Proof} {cp : ConsensusParams} {tx : CTransaction}

variable (env) in
lemma CTransaction.lTags_of_not_isSparkSpend (h : tx.isSparkSpend = false) :
    tx.lTags env = [] ∧ getSparkUsedTags env tx = [] := by
  unfold CTransaction.lTags getSparkUsedTags
  cases hparse : parseSparkSpend env tx with
  | ok sp => simp [(parseSparkSpend_eq_ok hparse).1] at h
  | error e => exact ⟨rfl, rfl⟩

lemma AcceptedSpend.lTags_eq {v} {g} (a : AcceptedSpend env cp v g tx) :
    tx.lTags env = a.spend.lTags ∧ getSparkUsedTags env tx = a.spend.T := by
  unfold CTransaction.lTags getSparkUsedTags
  rw [a.parse_eq]
  exact ⟨rfl, rfl⟩

lemma contextualCheckTransaction_spend {nHeight : Int}
    (h : contextualCheckTransaction cp nHeight tx = .ok ()) (hspend : tx.isSparkSpend = true) :
    cp.nSparkStartBlock ≤ nHeight := by
  have hversion : 3 ≤ tx.nVersion ∧
      (tx.nType = TRANSACTION_SPARK ∨ tx.nType = TRANSACTION_SPARK_V2) := by
    simp only [CTransaction.isSparkSpend, CTransaction.isSparkSpendV1,
      CTransaction.isSparkSpendV2, Bool.or_eq_true, Bool.and_eq_true, decide_eq_true_eq,
      beq_iff_eq] at hspend
    tauto
  unfold contextualCheckTransaction at h
  split at h
  case isTrue =>
    rw [if_pos hversion.1] at h
    simp only [except_bind_eq_ok, rejectIf_eq_ok, Bool.and_eq_false_iff, Bool.or_eq_false_iff,
      beq_eq_false_iff_ne, decide_eq_false_iff_not, not_lt] at h
    obtain ⟨_, -, _, -, _, -, _, hstart, -⟩ := h
    tauto
  case isFalse => simp [rejectIf_eq_ok, hversion.1] at h

section

variable [DecidableEq Tag] {v : View Coin Tag} {nHeight : Int}
  {ctx ctx' : CheckCtx Coin Tag Proof} {info info' : CSparkTxInfo Coin Tag}

structure TagsAdded (env : SparkEnv Coin Tag Proof) (s : CSparkState Coin Tag)
    (txs : List CTransaction) (info info' : CSparkTxInfo Coin Tag) : Prop where
  spentLTags_eq : info'.spentLTags = info.spentLTags ++ txs.flatMap (·.lTags env)
  nodup : (info'.spentLTags.map Prod.fst).Nodup
  tags_eq : (txs.flatMap (·.lTags env)).map Prod.fst = txs.flatMap (getSparkUsedTags env)
  unused : ∀ lTag ∈ txs.flatMap (·.lTags env), s.isUsedLTag lTag.1 = false

lemma TxAccepted.tagsAdded (h : TxAccepted env cp v nHeight tx ctx info ctx' info')
    (hseen : tx.isSparkSpend = true → env.getHash tx ∉ info.spTransactions)
    (hnodup : (info.spentLTags.map fst).Nodup) :
    TagsAdded env v.validationState [tx] info info' := by
  cases h with
  | unchecked hspend _ _ =>
    obtain ⟨hlTags, htags⟩ := CTransaction.lTags_of_not_isSparkSpend env hspend
    constructor <;> simp [hlTags, htags, hnodup]
  | mint hspend _ _ _ _ hinfo =>
    obtain ⟨hlTags, htags⟩ := CTransaction.lTags_of_not_isSparkSpend env hspend
    constructor <;> simp [hlTags, htags, hnodup, hinfo]
  | spend hspend _ a _ hfresh _ _ _ _ hinfo =>
    obtain ⟨hlTags, htags⟩ := a.lTags_eq
    have hfst := SpendTransaction.map_fst_lTags a.length_eq
    have hfresh' := hfresh (hseen hspend)
    have hnodup' : ((info.spentLTags ++ a.spend.lTags).map fst).Nodup := by
      rw [map_append, hfst, nodup_append]
      refine ⟨hnodup, a.nodup, ?_⟩
      rintro t ht t' ht' rfl
      exact (hfresh' t ht').1 ht
    have hspent := foldl_insertLTag hnodup'
    refine ⟨by simp [hinfo, hspent, hlTags], by simpa [hinfo, hspent] using hnodup',
      by simpa [hlTags, htags] using hfst, ?_⟩
    intro lTag hmem
    rw [flatMap_singleton, hlTags] at hmem
    exact (hfresh' lTag.1 (hfst ▸ mem_map_of_mem hmem)).2

lemma TxAccepted.spTransactions_subset (h : TxAccepted env cp v nHeight tx ctx info ctx' info') :
    info'.spTransactions ⊆ env.getHash tx :: info.spTransactions := by
  cases h with
  | unchecked => exact subset_cons_self _ _
  | mint _ _ _ _ _ hinfo => rw [hinfo]; exact Subset.refl _
  | spend _ _ _ _ _ _ _ _ _ hinfo => rw [hinfo]; exact Subset.refl _

lemma TxsAccepted.tagsAdded {txIds} {vtx}
    (h : TxsAccepted env cp v nHeight txIds vtx ctx info ctx' info')
    (hcontext : ∀ tx ∈ vtx, contextualCheckTransaction cp nHeight tx = .ok ())
    (hseen : info.spTransactions ⊆ txIds) (hnodup : (info.spentLTags.map fst).Nodup) :
    TagsAdded env v.validationState vtx info info' := by
  induction h with
  | nil => constructor <;> simp [hnodup]
  | @cons txIds tx rest ctx info ctx₁ info₁ ctx' info' hid htx _ ih =>
    rw [forall_mem_cons] at hcontext
    have hfirst := htx.tagsAdded (fun hspend hmem => by
      obtain ⟨hmain, hlt⟩ := hid (hseen hmem)
      have hstart := contextualCheckTransaction_spend hcontext.1 hspend
      have := cp.main_start hmain
      omega) hnodup
    have hrest := ih hcontext.2
      (Subset.trans htx.spTransactions_subset (cons_subset_cons _ hseen)) hfirst.nodup
    refine ⟨?_, hrest.nodup, ?_, ?_⟩
    · rw [hrest.spentLTags_eq, hfirst.spentLTags_eq]
      simp
    · rw [flatMap_cons, flatMap_cons, map_append, hrest.tags_eq]
      simpa using hfirst.tags_eq
    · intro lTag hmem
      rw [flatMap_cons, mem_append] at hmem
      rcases hmem with hmem | hmem
      · exact hfirst.unused lTag (by simpa using hmem)
      · exact hrest.unused lTag hmem

end

section

variable [DecidableEq Coin] [DecidableEq Tag] {s s' : CSparkState Coin Tag}
  {chain : List (CBlockIndex Coin Tag)} {index b : CBlockIndex Coin Tag}
  {lTags : List (Tag × Int)} {mints : List Coin}

omit [DecidableEq Coin] [DecidableEq Tag] in
lemma CSparkState.removeBlockCoins_usedLTags {entry}
    (h : removeBlockCoins b chain s entry = some s') : s'.usedLTags = s.usedLTags := by
  unfold removeBlockCoins at h
  dsimp only at h
  split at h
  case h_1 => rw [← Option.some.inj h]
  case h_2 =>
    split_ifs at h
    · rw [← Option.some.inj h]
    · rw [← Option.some.inj h]
    · obtain ⟨last, -, rfl⟩ := Option.map_eq_some_iff.mp h
      rfl

/-- Removing a block forgets exactly the tags that its index has. -/
lemma StateInv.removeBlock_usedLTags (h : StateInv s (b :: chain))
    (hs' : s.removeBlock b chain = some s') (t : Tag) :
    s'.usedLTags t = if t ∈ b.spentLTags.map fst then none else s.usedLTags t := by
  obtain ⟨-, -, -, hb | ⟨id, coins, hb, -⟩⟩ := h.wellPlaced
  · rw [s.removeBlock_of_noMints hb] at hs'
    rw [← Option.some.inj hs', removeSpends_eq]
  · rw [s.removeBlock_of_hasMints hb] at hs'
    obtain ⟨s₁, hs₁, rfl⟩ := Option.map_eq_some_iff.mp hs'
    rw [removeSpends_eq]
    simp only [removeMints_usedLTags, removeBlockCoins_usedLTags hs₁]

/-- Connecting a block records the tags of its spends and no others. -/
lemma StateInv.connect_usedLTags (h : StateInv s chain)
    (hheight : ∀ c ∈ chain, c.nHeight < index.nHeight)
    (hc : s.connect index chain lTags mints = some (s', b)) :
    s'.usedLTags = (s.addSpends lTags).usedLTags := by
  obtain ⟨-, -, -, ⟨-, rfl, -⟩ | ⟨p, hp, rfl, -⟩⟩ := h.connect_cases hheight hc
  · rfl
  · obtain ⟨-, -, -, hused, -⟩ := hp.frame
    rw [addMints_usedLTags, hused]

omit [DecidableEq Coin] in
lemma CSparkState.addSpends_records_iff {used} (hused : ∀ t, s.isUsedLTag t = true ↔ t ∈ used)
    (hnodup : (lTags.map fst).Nodup) (hunused : ∀ lTag ∈ lTags, s.isUsedLTag lTag.1 = false) :
    (∀ t, (s.addSpends lTags).isUsedLTag t = true ↔ t ∈ lTags.map fst ++ used) ↔
      ∀ lTag ∈ lTags, (s.mintMetaInfo lTag.2).isSome = true := by
  have hnone : ∀ lTag ∈ lTags, s.usedLTags lTag.1 = none := fun lTag hmem => by
    simpa [isUsedLTag] using hunused lTag hmem
  constructor
  · intro h lTag hmem
    have ht := (h lTag.1).mpr (mem_append_left _ (mem_map_of_mem hmem))
    rw [isUsedLTag, addSpends_usedLTags_of_mem hnodup hmem, hnone lTag hmem] at ht
    by_contra hmeta
    simp [hmeta] at ht
  · intro h t
    rw [mem_append, ← hused t]
    by_cases ht : t ∈ lTags.map fst
    · obtain ⟨lTag, hmem, rfl⟩ := mem_map.mp ht
      simp [isUsedLTag, addSpends_usedLTags_of_mem hnodup hmem, h lTag hmem, ht]
    · rw [isUsedLTag, addSpends_usedLTags_of_notMem ht]
      simp [ht, isUsedLTag]

end

section

variable [DecidableEq Coin] [DecidableEq Tag] {n n' n₁ : Node Coin Tag Proof} {block : CBlock}
  {index b : CBlockIndex Coin Tag} {other : OtherChecks}

/-- The node records the linking tags of its active chain, in which no tag occurs twice. -/
structure TagsExact (env : SparkEnv Coin Tag Proof) (n : Node Coin Tag Proof) : Prop where
  nodup : (usedTags env n.chain).Nodup
  used : ∀ t, n.sparkState.isUsedLTag t = true ↔ t ∈ usedTags env n.chain

/-- The indexes of the active chain have the linking tags of their blocks. -/
def TagsIndexed (env : SparkEnv Coin Tag Proof) (n : Node Coin Tag Proof) : Prop :=
  ∀ b ∈ n.chain, b.spentLTags.map Prod.fst = b.block.usedTags env

/-- The action puts another block at the tip. -/
def Node.ChangesChain (env : SparkEnv Coin Tag Proof) (cp : ConsensusParams)
    (n : Node Coin Tag Proof) (a : Action Coin Tag) : Prop :=
  ∃ n', n.step env cp a = some n' ∧ n'.chain ≠ n.chain

/-- The spends of the block are from groups that have a recorded mint. -/
def SpendsRecordedGroups (env : SparkEnv Coin Tag Proof) (n : Node Coin Tag Proof) :
    Action Coin Tag → Prop
  | .connectTip block _ =>
    ∀ lTag ∈ block.lTags env, (n.sparkState.mintMetaInfo lTag.2).isSome = true
  | _ => True

instance (n : Node Coin Tag Proof) :
    (a : Action Coin Tag) → Decidable (SpendsRecordedGroups env n a)
  | .connectTip block _ => inferInstanceAs (Decidable
      (∀ lTag ∈ block.lTags env, (n.sparkState.mintMetaInfo lTag.2).isSome = true))
  | .disconnectTip _ | .checkBlock _ _ _ | .acceptToMemoryPool _ _
  | .eraseCheckedSparkSpendTransaction _ | .setVerifyDBContext _ | .verifyPending _ =>
    .isTrue trivial

lemma Connection.tagsAdded (c : Connection env cp other n index n₁ b)
    (hcontext : ∀ tx ∈ index.block.vtx, contextualCheckTransaction cp index.nHeight tx = .ok ()) :
    TagsAdded env n.sparkState index.block.vtx {} c.info :=
  c.accepted.tagsAdded hcontext (Subset.refl _) nodup_nil

omit [DecidableEq Coin] [DecidableEq Tag] in
variable (env cp) in
lemma lTags_genesis : cp.genesis.lTags env = [] ∧ cp.genesis.usedTags env = [] := by
  rw [CBlock.lTags, CBlock.usedTags, flatMap_eq_nil_iff, flatMap_eq_nil_iff, ← forall₂_and]
  intro tx hmem
  have hspark := cp.genesis_noSpark tx hmem
  rw [CTransaction.isSparkTransaction, Bool.or_eq_false_iff] at hspark
  exact CTransaction.lTags_of_not_isSparkSpend env hspark.2

lemma TipStep.tagsIndexed (h : NodeInv env cp n) (hindexed : TagsIndexed env n)
    (hentry : n.indexOf cp block = some index)
    (hstep : TipStep env cp other n block index n') : TagsIndexed env n' := by
  cases hstep with
  | refused => exact hindexed
  | failed => exact hindexed
  | genesis hchain =>
    obtain ⟨rfl, rfl⟩ := Node.indexOf_nil hchain hentry
    simp [TagsIndexed, lTags_genesis]
  | connected hnext hcontext n₁ b c =>
    have hr := c.result h.namesInv hnext.recordable
    have hadded := c.tagsAdded (hnext.block_eq ▸ hcontext)
    unfold TagsIndexed
    rw [forall_mem_cons]
    refine ⟨?_, hindexed⟩
    rw [hr.lTags_eq, hr.block_eq, hadded.spentLTags_eq]
    exact hadded.tags_eq

/-- Behind a new tip the tags are exact exactly if its spends are from recorded groups. -/
lemma TipStep.tagsExact_iff (h : NodeInv env cp n) (hexact : TagsExact env n)
    (hentry : n.indexOf cp block = some index)
    (hstep : TipStep env cp other n block index n') (hchain : n'.chain ≠ n.chain) :
    TagsExact env n' ↔ SpendsRecordedGroups env n (.connectTip block other) := by
  cases hstep with
  | refused => exact absurd rfl hchain
  | failed => exact absurd rfl hchain
  | genesis hnil =>
    obtain ⟨rfl, rfl⟩ := Node.indexOf_nil hnil hentry
    obtain ⟨hlTags, htags⟩ := lTags_genesis env cp
    refine iff_of_true ⟨?_, ?_⟩ ?_
    · simp [usedTags, htags]
    · simpa [usedTags, htags, hnil] using hexact.used
    · simp [SpendsRecordedGroups, hlTags]
  | connected hnext hcontext n₁ b c =>
    have hr := c.result h.namesInv hnext.recordable
    rw [← hnext.block_eq] at hcontext
    obtain ⟨hspent, hnodup, htags, hunused⟩ := c.tagsAdded hcontext
    rw [nil_append] at hspent
    rw [← hspent] at htags hunused
    have hstate := h.state.connect_usedLTags hnext.height_lt c.state_eq
    have hused : usedTags env (b :: n.chain) =
        c.info.spentLTags.map fst ++ usedTags env n.chain := by
      rw [usedTags, flatMap_cons, hr.block_eq, htags]
      rfl
    have hfresh : (usedTags env (b :: n.chain)).Nodup := by
      rw [hused, nodup_append]
      refine ⟨hnodup, hexact.nodup, ?_⟩
      rintro t ht t' ht' rfl
      obtain ⟨lTag, hmem, rfl⟩ := mem_map.mp ht
      simp [hunused lTag hmem, ← hexact.used] at ht'
    rw [SpendsRecordedGroups, ← hnext.block_eq, CBlock.lTags, ← hspent,
      ← addSpends_records_iff hexact.used hnodup hunused, ← hused]
    have hstate' : ∀ t, n₁.sparkState.isUsedLTag t =
        (n.sparkState.addSpends c.info.spentLTags).isUsedLTag t := fun t => by
      rw [CSparkState.isUsedLTag, hstate, CSparkState.isUsedLTag]
    simp only [← hstate']
    exact ⟨fun hn' => hn'.used, fun hused' => ⟨hfresh, hused'⟩⟩

lemma TagsExact.disconnectTip {batching : Bool} (h : NodeInv env cp n)
    (hindexed : TagsIndexed env n) (hexact : TagsExact env n)
    (hstep : n.disconnectTip env batching = some n') : TagsExact env n' := by
  obtain ⟨b, p, rest, s, batch, hchain, hs, rfl⟩ := disconnectTip_eq_some hstep
  obtain ⟨-, hstate⟩ := h
  obtain ⟨hnodup, hused⟩ := hexact
  have hb := hindexed b (by simp [hchain])
  rw [hchain] at hstate hnodup hused
  rw [usedTags, flatMap_cons, ← hb] at hnodup hused
  refine ⟨(nodup_append.mp hnodup).2.1, fun t => ?_⟩
  have hdisjoint := (nodup_append.mp hnodup).2.2
  have hused' := hused t
  rw [mem_append, CSparkState.isUsedLTag] at hused'
  rw [CSparkState.isUsedLTag, hstate.removeBlock_usedLTags hs t]
  by_cases ht : t ∈ b.spentLTags.map fst
  · rw [if_pos ht]
    exact iff_of_false (by simp) fun hmem => hdisjoint t ht t hmem rfl
  · rw [if_neg ht, hused']
    exact or_iff_right ht

/-- In every run that meets the condition the recorded tags are those of the chain. -/
lemma tagsExact_of_reachable {maxCoinInGroup startGroupSize : Nat}
    (h : Reachable env cp maxCoinInGroup startGroupSize
      (fun n a => n.ChangesChain env cp a → SpendsRecordedGroups env n a) n) :
    TagsIndexed env n ∧ TagsExact env n := by
  apply h.spark_induction (I := fun n => TagsIndexed env n ∧ TagsExact env n)
  · exact ⟨nofun, nodup_nil, fun t => by
      simp [usedTags, Node.initial, CSparkState.isUsedLTag]⟩
  · intro n n' block other index hn hI hok hstep hentry htip
    refine ⟨htip.tagsIndexed hn hI.1 hentry, ?_⟩
    by_cases hchain : n'.chain = n.chain
    · obtain ⟨hnodup, hused⟩ := hI.2
      rw [← hchain] at hnodup hused
      exact ⟨hnodup, htip.sparkState_of_chain_eq hchain ▸ hused⟩
    · exact (htip.tagsExact_iff hn hI.2 hentry hchain).mpr (hok ⟨n', hstep, hchain⟩)
  · intro n n' batching hn hI hstep
    refine ⟨?_, hI.2.disconnectTip hn hI.1 hstep⟩
    obtain ⟨b, p, rest, s, batch, hchain, hs, rfl⟩ := disconnectTip_eq_some hstep
    exact fun c hc => hI.1 c (hchain ▸ mem_cons_of_mem b hc)
  · intro n n' heq hI
    unfold TagsIndexed
    rw [heq.chain]
    refine ⟨hI.1, ?_, ?_⟩
    · rw [heq.chain]
      exact hI.2.nodup
    · rw [heq.chain, heq.sparkState]
      exact hI.2.used

/-- In every run whose connected blocks spend only from groups with a recorded mint, the
recorded tags are exactly those of the active chain, none of which occurs twice; and
behind the next connected block they are so exactly if that block's spends are of this
kind too. -/
theorem usedLTags_exact {maxCoinInGroup startGroupSize : Nat}
    (h : Reachable env cp maxCoinInGroup startGroupSize
      (fun n a => n.ChangesChain env cp a → SpendsRecordedGroups env n a) n) :
    TagsExact env n ∧ ∀ block other n', n.step env cp (.connectTip block other) = some n' →
        n'.chain ≠ n.chain →
        (TagsExact env n' ↔ SpendsRecordedGroups env n (.connectTip block other)) := by
  obtain ⟨-, hexact⟩ := tagsExact_of_reachable h
  refine ⟨hexact, fun block other n' hstep hchain => ?_⟩
  have hn := nodeInv_of_reachable h
  obtain ⟨index, hentry, htip⟩ := hn.connectTip_cases hstep
  exact htip.tagsExact_iff hn hexact hentry hchain

/-- After all runs, reorganisations included, the coins with a record are those that blocks of the
active chain minted, and a record has the group and the height of one of these blocks. -/
theorem mintedCoins_exact {maxCoinInGroup startGroupSize : Nat} {ok}
    (h : Reachable env cp maxCoinInGroup startGroupSize ok n) (coin : Coin) :
    ((n.sparkState.mintedCoins coin).isSome ↔
      ∃ b ∈ n.chain, ∃ id coins, b.HasMints id coins ∧ coin ∈ coins) ∧
    ∀ info, n.sparkState.mintedCoins coin = some info →
      ∃ b ∈ n.chain, ∃ coins, b.HasMints info.coinGroupId coins ∧ coin ∈ coins ∧
        info.nHeight = b.nHeight := by
  obtain ⟨hplaced, hagrees⟩ := (nodeInv_of_reachable h).state
  rw [hagrees.minted_eq]
  exact ⟨build_mintedCoins_isSome hplaced, fun _ => build_mintedCoins_of_some hplaced⟩

end

theorem mintedCoins_exact_mint : ∃ n : Node Toy.Coin UInt8 Toy.Coin, ∃ b ∈ n.chain, ∃ coins,
    b.HasMints 1 coins ∧ ⟨0, 7, 50⟩ ∈ coins ∧ 1 = b.nHeight := by
  obtain ⟨n, hreach, -, hminted⟩ := Toy.reachable_mint
  exact ⟨n, (mintedCoins_exact hreach _).2 _ hminted⟩

theorem usedLTags_exact_oneSpend : ∃ n : Node Toy.Coin UInt8 Toy.Coin,
      Reachable Toy.env (Toy.params 1) 3 1
        (fun n a => n.ChangesChain Toy.env (Toy.params 1) a → SpendsRecordedGroups Toy.env n a) n ∧
      usedTags Toy.env n.chain = [7] ∧ TagsExact Toy.env n := by
  have hrun : ([Toy.connect 0 [], Toy.connect 1 [Toy.mintTx 1 [(7, 50)]],
      Toy.connect 2 [Toy.spendSeven 2 1 1 20]].foldlM (fun n a =>
        if SpendsRecordedGroups Toy.env n a then n.step Toy.env (Toy.params 1) a else none)
      (Node.initial 3 1)).any (fun n => decide (usedTags Toy.env n.chain = [7])) = true := by
    decide +kernel
  obtain ⟨n, hn, htags⟩ := (Option.any_eq_true ..).mp hrun
  have hguarded := Reach.of_foldlM_guarded .init hn
  have hreach : Reachable Toy.env (Toy.params 1) 3 1 (fun n a =>
      n.ChangesChain Toy.env (Toy.params 1) a → SpendsRecordedGroups Toy.env n a) n := by
    refine Reach.mono ?_ hguarded
    exact fun _ _ hok _ => hok
  exact ⟨n, hreach, of_decide_eq_true htags, (usedLTags_exact hreach).1⟩

/-- Three mints fill the first group, and the first of them is repeated and opens the
second one, which then has no recorded mint. A spend of the repeated coin from that group
leaves no tag, so that the coin is spent once more. -/
def Toy.repeatedMint : List (Action Toy.Coin UInt8) :=
  [Toy.connect 0 [], Toy.connect 1 [Toy.mintTx 1 [(7, 50)]],
    Toy.connect 2 [Toy.mintTx 2 [(8, 50)]], Toy.connect 3 [Toy.mintTx 3 [(9, 50)]],
    Toy.connect 4 [Toy.mintTx 4 [(7, 50)]], Toy.connect 5 [Toy.spendSeven 5 2 4 20]]

theorem double_spend_of_repeatedMint : ∃ n n' : Node Toy.Coin UInt8 Toy.Coin,
      Reachable Toy.env (Toy.params 5) 3 1 (fun _ _ => True) n ∧
      usedTags Toy.env n.chain = [7] ∧ n.sparkState.isUsedLTag 7 = false ∧
      n.step Toy.env (Toy.params 5) (Toy.connect 6 [Toy.spendSeven 6 2 4 21]) = some n' ∧
      usedTags Toy.env n'.chain = [7, 7] := by
  have hrun : (Toy.repeatedMint.foldlM (Node.step Toy.env (Toy.params 5))
      (Node.initial 3 1)).any (fun n =>
        decide (usedTags Toy.env n.chain = [7] ∧ n.sparkState.isUsedLTag 7 = false) &&
        (n.step Toy.env (Toy.params 5) (Toy.connect 6 [Toy.spendSeven 6 2 4 21])).any fun n' =>
          decide (usedTags Toy.env n'.chain = [7, 7])) = true := by
    decide +kernel
  obtain ⟨n, hn, htest⟩ := (Option.any_eq_true ..).mp hrun
  simp only [Bool.and_eq_true, decide_eq_true_eq, Option.any_eq_true] at htest
  obtain ⟨⟨htags, hunused⟩, n', hstep, htags'⟩ := htest
  exact ⟨n, n', Reach.of_foldlM .init (fun _ _ _ => trivial) hn, htags, hunused, hstep, htags'⟩

end Firo.Spark
