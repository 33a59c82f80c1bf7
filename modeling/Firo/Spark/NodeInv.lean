import Firo.Spark.Connect
import Firo.Spark.Toy

/-! In every node that a run reaches, the Spark state agrees with the replay of the active chain,
and the names and the block index fit the tree of known blocks. -/
namespace Firo.Spark

open Firo.Lib CSparkNameManager CBlockIndex

variable {Coin Tag Proof : Type} [DecidableEq Coin] [DecidableEq Tag]

structure NodeInv (env : SparkEnv Coin Tag Proof) (cp : ConsensusParams)
    (n : Node Coin Tag Proof) : Prop where
  tree : ∃ know, TreeInv env.names cp know n.chain n.blockIndex n.sparkNameManager
  state : StateInv n.sparkState n.chain

variable {env : SparkEnv Coin Tag Proof} {cp : ConsensusParams} {n n' : Node Coin Tag Proof}
  {block : CBlock} {index b : CBlockIndex Coin Tag} {other : OtherChecks}

lemma NodeInv.initial (maxCoinInGroup startGroupSize : Nat) :
    NodeInv env cp (Node.initial maxCoinInGroup startGroupSize : Node Coin Tag Proof) :=
  ⟨⟨_, TreeInv.initial⟩, StateInv.nil _ _⟩

/-- The invariant only reads the chain, its index, the state and the names. -/
lemma NodeInv.of_eq (h : NodeInv env cp n) (hchain : n'.chain = n.chain)
    (hindex : n'.blockIndex = n.blockIndex) (hstate : n'.sparkState = n.sparkState)
    (hnames : n'.sparkNameManager = n.sparkNameManager) : NodeInv env cp n' := by
  obtain ⟨⟨know, htree⟩, hst⟩ := h
  refine ⟨⟨know, ?_⟩, ?_⟩
  · rwa [hchain, hindex, hnames]
  · rwa [hchain, hstate]

structure NextBlock (env : SparkEnv Coin Tag Proof) (cp : ConsensusParams)
    (n : Node Coin Tag Proof) (block : CBlock) (index : CBlockIndex Coin Tag) : Prop where
  block_eq : index.block = block
  not_genesis : index.block.hash ≠ cp.hashGenesisBlock
  next : nextBlockHeight n.chain = index.nHeight
  hash_ne : ∀ c ∈ n.chain, c.hash ≠ index.hash
  height_lt : ∀ c ∈ n.chain, c.nHeight < index.nHeight
  recordable : Recordable n.sparkNameManager.core cp (index.own env.names cp) index

lemma NodeInv.nextBlock {tip} {rest} (h : NodeInv env cp n) (hchain : n.chain = tip :: rest)
    (hentry : n.indexOf cp block = some index) : NextBlock env cp n block index := by
  obtain ⟨⟨know, htree⟩, hstate⟩ := h
  unfold Node.indexOf at hentry
  rw [hchain] at hentry htree
  obtain ⟨hblock, -, hnew, hheight, hrec⟩ := htree.entry hentry
  have hhash : index.hash = block.hash := congrArg CBlock.hash hblock
  refine ⟨hblock, ?_, ?_, ?_, ?_, hrec⟩
  · intro hgenesis
    have hmem := htree.chain_known.genesis_mem (List.cons_ne_nil _ _)
    rw [show cp.genesis.hash = block.hash from hgenesis.symm.trans hhash] at hmem
    exact hnew hmem
  · rw [hchain, hheight]
    rfl
  · intro c hc heq
    rw [hchain] at hc
    exact hnew (heq.trans hhash ▸ List.mem_map_of_mem hc)
  · intro c hc
    rw [hchain] at hc hstate
    rw [hheight]
    rcases List.mem_cons.mp hc with rfl | hmem
    · exact lt_add_one _
    · exact (hstate.wellPlaced.2.2.1 c hmem).trans (lt_add_one _)

omit [DecidableEq Coin] [DecidableEq Tag] in
lemma Node.indexOf_nil (hchain : n.chain = []) (hentry : n.indexOf cp block = some index) :
    block = cp.genesis ∧ index = { block, nHeight := 0 } := by
  unfold Node.indexOf at hentry
  obtain ⟨-, hgenesis, hindex⟩ | ⟨_, _, hcons, -⟩ := blockIndexEntry_eq_some hentry
  · exact ⟨hgenesis, hindex⟩
  · rw [hchain] at hcons
    cases hcons

lemma NodeInv.namesInv (h : NodeInv env cp n) : NamesInv n.sparkNameManager := by
  obtain ⟨know, htree⟩ := h.tree
  exact htree.names

lemma NodeInv.nextBlock_of_ne (h : NodeInv env cp n) (hentry : n.indexOf cp block = some index)
    (hgenesis : index.block.hash ≠ cp.hashGenesisBlock) : NextBlock env cp n block index := by
  cases hchain : n.chain with
  | nil =>
    obtain ⟨hblock, hindex⟩ := Node.indexOf_nil hchain hentry
    exact absurd (by rw [hindex, hblock]; rfl) hgenesis
  | cons tip rest => exact h.nextBlock hchain hentry

inductive TipStep (env : SparkEnv Coin Tag Proof) (cp : ConsensusParams) (other : OtherChecks)
    (n : Node Coin Tag Proof) (block : CBlock) (index : CBlockIndex Coin Tag) :
    Node Coin Tag Proof → Prop
  | refused : TipStep env cp other n block index n
  | failed (checkedSpends : List Uint256)
      (batch : BatchProofContainer (SpendTransaction Coin Tag Proof)) (b : CBlockIndex Coin Tag)
      (hb : b = index ∨ b = index.cleared) : TipStep env cp other n block index
        { n.withCaches checkedSpends batch with
          blockIndex := Function.update n.blockIndex block.hash (some b) }
  | genesis (hchain : n.chain = []) : TipStep env cp other n block index
      { n with
        chain := [index]
        blockIndex := Function.update n.blockIndex block.hash none }
  | connected (hnext : NextBlock env cp n block index)
      (hcontext : ∀ tx ∈ block.vtx, contextualCheckTransaction cp index.nHeight tx = .ok ())
      (n₁ : Node Coin Tag Proof) (b : CBlockIndex Coin Tag)
      (c : Connection env cp other n index n₁ b) : TipStep env cp other n block index
        { n₁ with
          chain := b :: n.chain
          blockIndex := Function.update n.blockIndex block.hash none }

lemma Connection.frame {n₁} (c : Connection env cp other n index n₁ b) :
    n₁.chain = n.chain ∧ n₁.blockIndex = n.blockIndex ∧
      n₁.verifyDBContext = n.verifyDBContext := by
  have hchain := congrArg Node.chain c.spark.node
  have hindex := congrArg Node.blockIndex c.spark.node
  have hcontext := congrArg Node.verifyDBContext c.spark.node
  exact ⟨hchain, hindex, hcontext⟩

/-- What a block that is offered as the next tip leads to. -/
lemma NodeInv.connectTip_cases (h : NodeInv env cp n)
    (hstep : n.connectTip env cp block other = some n') :
    ∃ index, n.indexOf cp block = some index ∧ TipStep env cp other n block index n' := by
  unfold Node.connectTip at hstep
  obtain ⟨index, hentry, hrest⟩ := Option.bind_eq_some_iff.mp hstep
  refine ⟨index, hentry, ?_⟩
  have hnames := h.namesInv
  split at hrest
  case h_1 =>
    cases hrest
    exact .refused
  case h_2 hcontext =>
    rw [except_forM_eq_ok] at hcontext
    cases hchain : n.chain with
    | nil =>
      obtain ⟨hblock, hindex⟩ := Node.indexOf_nil hchain hentry
      have hgenesis : index.block.hash = cp.hashGenesisBlock := by
        rw [hindex, hblock]
        rfl
      split at hrest
      case h_1 n₁ b hok =>
        unfold connectBlock at hok
        simp only [get_bind_apply, if_pos hgenesis, liftCheck_bind_eq_ok] at hok
        obtain ⟨_, -, _, -, hpure⟩ := hok
        obtain ⟨rfl, rfl⟩ := Prod.mk.inj (estate_pure_eq_ok.mp hpure).2
        cases hrest
        rw [hchain]
        exact .genesis hchain
      case h_2 => cases hrest
      case h_3 e n₁ b he herror =>
        obtain ⟨⟨checkedSpends, batch, rfl⟩, hb⟩ := connectBlock_eq_error he
          (fun hne => absurd hgenesis hne) hnames (fun hne => absurd hgenesis hne) herror
        cases hrest
        exact .failed checkedSpends batch b hb
    | cons tip rest =>
      have hnext := h.nextBlock hchain hentry
      split at hrest
      case h_1 n₁ b hok =>
        obtain ⟨c⟩ := connectBlock_eq_ok hnext.not_genesis hnext.next hnames hnext.recordable hok
        cases hrest
        obtain ⟨hc, hi, -⟩ := c.frame
        rw [hc, hi]
        rw [hnext.next] at hcontext
        exact .connected hnext hcontext n₁ b c
      case h_2 => cases hrest
      case h_3 e n₁ b he herror =>
        obtain ⟨⟨checkedSpends, batch, rfl⟩, hb⟩ := connectBlock_eq_error he
          (fun _ => hnext.next) hnames (fun _ => hnext.recordable) herror
        cases hrest
        exact .failed checkedSpends batch b hb

structure Node.SparkEq (n n' : Node Coin Tag Proof) : Prop where
  chain : n'.chain = n.chain
  blockIndex : n'.blockIndex = n.blockIndex
  sparkState : n'.sparkState = n.sparkState
  sparkNameManager : n'.sparkNameManager = n.sparkNameManager

omit [DecidableEq Coin] [DecidableEq Tag] in
lemma keeps_runChecks (x) : Keeps (fun y => n.SparkEq y.1) (runChecks x) := by
  rintro ⟨n₁, index₁⟩ h₁
  constructor
  · intro info y hy
    obtain ⟨-, ctx, -, -, rfl⟩ := runChecks_eq_ok hy
    exact ⟨h₁.chain, h₁.blockIndex, h₁.sparkState, h₁.sparkNameManager⟩
  · intro e y hy
    obtain ⟨checkedSpends, batch, rfl⟩ := runChecks_eq_error hy
    exact ⟨h₁.chain, h₁.blockIndex, h₁.sparkState, h₁.sparkNameManager⟩

lemma keeps_connectBlockSpark (info) (isVerifyDB : Bool) : Keeps (fun y => n.SparkEq y.1)
      (connectBlockSpark env cp other block info true isVerifyDB) := by
  unfold connectBlockSpark
  apply Keeps.bind Keeps.get
  rintro ⟨n₁, index₁⟩
  refine .liftCheck_bind fun _ => .liftCheck_bind fun _ => ?_
  rw [if_pos rfl]
  apply Keeps.ite
  · apply Keeps.modify
    rintro ⟨n₂, index₂⟩ h₂
    exact ⟨h₂.chain, h₂.blockIndex, h₂.sparkState, h₂.sparkNameManager⟩
  · exact Keeps.pure _

lemma keeps_checkOnlyEnd (info) (isVerifyDB : Bool) : Keeps (fun y => n.SparkEq y.1) (do
      liftCheck (verdict other.afterTransactions)
      connectBlockSpark env cp other block info (true || isVerifyDB) isVerifyDB
      if (!true) = true then
        modify fun (n, index) => ({ n with batch := n.batch.finalize }, index) :
      ConnectM Coin Tag Proof Unit) := by
  refine .liftCheck_bind fun _ => ?_
  apply Keeps.bind (keeps_connectBlockSpark _ _)
  intro _
  exact Keeps.pure _

lemma keeps_connectBlock (isVerifyDB : Bool) :
    Keeps (fun y => n.SparkEq y.1) (connectBlock env cp other true isVerifyDB) := by
  unfold connectBlock
  apply Keeps.bind Keeps.get
  rintro ⟨n₁, index₁⟩
  refine .liftCheck_bind fun _ => .liftCheck_bind fun _ => ?_
  apply Keeps.ite (Keeps.pure _)
  refine .liftCheck_bind fun _ => ?_
  apply Keeps.bind
  · apply Keeps.modify
    rintro ⟨n₂, index₂⟩ h₂
    exact ⟨h₂.chain, h₂.blockIndex, h₂.sparkState, h₂.sparkNameManager⟩
  intro _
  apply Keeps.bind (keeps_runChecks _)
  intro info
  apply Keeps.ite
  · apply Keeps.bind (Keeps.liftCheck _)
    intro _
    exact keeps_checkOnlyEnd _ _
  · exact keeps_checkOnlyEnd _ _

namespace Connection

variable {n₁ : Node Coin Tag Proof} (c : Connection env cp other n index n₁ b)

include c

lemma state_eq : n.sparkState.connect index n.chain c.info.spentLTags
    (c.info.complete env).mints = some (n₁.sparkState, c.b₁) :=
  c.spark.state

lemma b₁_eq : c.b₁ = { index.cleared with
    spentLTags := c.info.spentLTags
    sparkMintedCoins := c.b₁.sparkMintedCoins } :=
  connect_index_eq c.state_eq

omit c in
structure Result (c : Connection env cp other n index n₁ b) : Prop where
  namesInv : NamesInv n₁.sparkNameManager
  core_eq : n₁.sparkNameManager.core =
    nextCore n.sparkNameManager.core cp index.nHeight (index.own env.names cp)
  recorded : Recorded n.sparkNameManager.core cp (index.own env.names cp) b
  block_eq : b.block = index.block
  height_eq : b.nHeight = index.nHeight
  minted_eq : b.sparkMintedCoins = c.b₁.sparkMintedCoins
  lTags_eq : b.spentLTags = c.info.spentLTags
  setHash_eq : b.sparkSetHash = (c.b₁.withSetHash n₁.sparkState.latestCoinId c.setHash).sparkSetHash

lemma result (hnames : NamesInv n.sparkNameManager)
    (hrec : Recordable n.sparkNameManager.core cp (index.own env.names cp) index) : c.Result := by
  obtain ⟨hown, hconn⟩ := c.accepted.connecting hnames hrec
  have hb₁ := c.b₁_eq
  have hblock : c.b₁.block = index.block := by rw [hb₁]; rfl
  have hheight : c.b₁.nHeight = index.nHeight := by rw [hb₁]; rfl
  have hlTags : c.b₁.spentLTags = c.info.spentLTags := by rw [hb₁]
  have hconn₁ : Connecting n.sparkNameManager cp c.info.sparkNames
      (c.b₁.withSetHash n₁.sparkState.latestCoinId c.setHash) := by
    apply hconn.of_index
    · simpa using hheight
    · rw [withSetHash_addedSparkNames, hb₁]
      rfl
    · rw [withSetHash_removedSparkNames, hb₁]
      rfl
  obtain ⟨m', added, removed, hconnect, hinv, hcore, hrecorded⟩ := hconn₁.connect_spec
  obtain ⟨hm, hb⟩ := Prod.mk.inj (Except.ok.inj (hconnect.symm.trans c.spark.names))
  rw [hm] at hinv hcore
  rw [hown] at hcore hrecorded
  rw [withSetHash_nHeight, hheight] at hcore
  rw [hb] at hrecorded
  refine ⟨hinv, hcore, hrecorded, ?_, ?_, ?_, ?_, ?_⟩
  · exact (congrArg CBlockIndex.block hb).symm.trans (by simpa using hblock)
  · exact (congrArg CBlockIndex.nHeight hb).symm.trans (by simpa using hheight)
  · exact (congrArg CBlockIndex.sparkMintedCoins hb).symm.trans (by simp)
  · exact (congrArg CBlockIndex.spentLTags hb).symm.trans (by simpa using hlTags)
  · exact (congrArg sparkSetHash hb).symm

end Connection

lemma TipStep.nodeInv (h : NodeInv env cp n) (hentry : n.indexOf cp block = some index)
    (hstep : TipStep env cp other n block index n') : NodeInv env cp n' := by
  obtain ⟨⟨know, htree⟩, hstate⟩ := h
  cases hstep with
  | refused => exact ⟨⟨know, htree⟩, hstate⟩
  | failed checkedSpends batch b hb =>
    refine ⟨⟨know, htree.failed hentry ?_ ?_ ?_ ?_⟩, hstate⟩
    all_goals rcases hb with rfl | rfl
    all_goals rfl
  | genesis hchain =>
    obtain ⟨rfl, rfl⟩ := Node.indexOf_nil hchain hentry
    rw [hchain] at htree hstate
    refine ⟨⟨_, htree.connect_genesis ⟨rfl, rfl⟩⟩, ?_⟩
    exact hstate.of_noMints (by simp) (by simp) rfl
  | connected hnext hcontext n₁ b c =>
    have hr := c.result htree.names hnext.recordable
    refine ⟨?_, ?_⟩
    · cases hchain : n.chain with
      | nil =>
        obtain ⟨hgenesis, -⟩ := Node.indexOf_nil hchain hentry
        have heq : index.block.hash = cp.genesis.hash := by rw [hnext.block_eq, hgenesis]
        exact absurd heq hnext.not_genesis
      | cons tip rest =>
        unfold Node.indexOf at hentry
        rw [hchain] at htree hentry
        exact ⟨_, htree.connect hentry hr.namesInv hr.core_eq hr.block_eq hr.height_eq hr.recorded⟩
    · apply hstate.connect hnext.hash_ne hnext.height_lt c.state_eq
      · rw [hr.block_eq, c.b₁_eq]
        rfl
      · rw [hr.height_eq, c.b₁_eq]
        rfl
      · exact hr.minted_eq

variable {batching : Bool} {a : Action Coin Tag} {maxCoinInGroup startGroupSize : Nat} {e : Reject}

lemma disconnectTip_eq_some (h : n.disconnectTip env batching = some n') :
    ∃ b p rest s batch, n.chain = b :: p :: rest ∧ n.sparkState.removeBlock b (p :: rest) = some s ∧
      n' = { n with
        chain := p :: rest
        blockIndex := Function.update n.blockIndex b.hash (some b)
        sparkState := s
        sparkNameManager := n.sparkNameManager.removeBlock b
        checkedSpends := []
        batch := batch } := by
  unfold Node.disconnectTip at h
  split at h
  case h_1 => cases h
  case h_2 => cases h
  case h_3 b chain hne hchain =>
    cases chain with
    | nil => exact absurd rfl hne
    | cons p rest =>
      obtain ⟨s, hs, hn'⟩ := Option.bind_eq_some_iff.mp h
      exact ⟨b, p, rest, s, _, hchain, hs, (Option.some.inj hn').symm⟩

/-- Disconnecting the tip keeps the invariant of the node. -/
lemma NodeInv.disconnectTip (h : NodeInv env cp n)
    (hstep : n.disconnectTip env batching = some n') : NodeInv env cp n' := by
  obtain ⟨b, p, rest, s, batch, hchain, hs, rfl⟩ := disconnectTip_eq_some hstep
  obtain ⟨⟨know, htree⟩, hstate⟩ := h
  rw [hchain] at htree hstate
  exact ⟨⟨know, htree.disconnect⟩, hstate.disconnect hs⟩

omit [DecidableEq Coin] [DecidableEq Tag] in
lemma Node.SparkEq.refl (n : Node Coin Tag Proof) : n.SparkEq n :=
  ⟨rfl, rfl, rfl, rfl⟩

lemma Node.SparkEq.nodeInv (h : n.SparkEq n') (hn : NodeInv env cp n) : NodeInv env cp n' :=
  hn.of_eq h.chain h.blockIndex h.sparkState h.sparkNameManager

lemma Node.sparkEq_of_checkBlock {isVerifyDB : Bool}
    (hstep : n.checkBlock env cp index other isVerifyDB = some n') : n.SparkEq n' := by
  have hkeeps : Keeps (fun y => n.SparkEq y.1) (connectBlock env cp other true isVerifyDB) :=
    keeps_connectBlock isVerifyDB
  have hindex := hkeeps (n, index) (Node.SparkEq.refl n)
  unfold Node.checkBlock at hstep
  split at hstep
  case h_1 n₁ index₁ hok =>
    cases hstep
    exact hindex.1 _ _ hok
  case h_2 => cases hstep
  case h_3 e n₁ index₁ _ herror =>
    cases hstep
    exact hindex.2 _ _ herror

lemma Node.sparkEq_of_step (hstep : n.step env cp a = some n')
    (hconnect : ∀ block other, a ≠ .connectTip block other)
    (hdisconnect : ∀ batching, a ≠ .disconnectTip batching) : n.SparkEq n' := by
  cases a with
  | connectTip block other => exact absurd rfl (hconnect block other)
  | disconnectTip batching => exact absurd rfl (hdisconnect batching)
  | checkBlock index other isVerifyDB => exact Node.sparkEq_of_checkBlock hstep
  | acceptToMemoryPool tx isCheckWallet =>
    change n.acceptToMemoryPool env cp tx isCheckWallet = some n' at hstep
    unfold Node.acceptToMemoryPool at hstep
    split at hstep <;> cases hstep <;> exact ⟨rfl, rfl, rfl, rfl⟩
  | eraseCheckedSparkSpendTransaction hashTx =>
    cases hstep
    exact ⟨rfl, rfl, rfl, rfl⟩
  | setVerifyDBContext ctx =>
    cases hstep
    exact ⟨rfl, rfl, rfl, rfl⟩
  | verifyPending passed =>
    cases hstep
    exact ⟨rfl, rfl, rfl, rfl⟩

/-- Every action keeps the invariant of the node. -/
lemma NodeInv.step (h : NodeInv env cp n)
    (hstep : n.step env cp a = some n') : NodeInv env cp n' := by
  by_cases hconnect : ∃ block other, a = .connectTip block other
  · obtain ⟨block, other, rfl⟩ := hconnect
    obtain ⟨index, hentry, htip⟩ := h.connectTip_cases hstep
    exact htip.nodeInv h hentry
  by_cases hdisconnect : ∃ batching, a = .disconnectTip batching
  · obtain ⟨batching, rfl⟩ := hdisconnect
    exact h.disconnectTip hstep
  · refine (Node.sparkEq_of_step hstep ?_ ?_).nodeInv h
    · exact fun block other heq => hconnect ⟨block, other, heq⟩
    · exact fun batching heq => hdisconnect ⟨batching, heq⟩

variable {ok : Node Coin Tag Proof → Action Coin Tag → Prop}

/-- The invariant of the node holds in every run. -/
lemma nodeInv_of_reachable
    (h : Reachable env cp maxCoinInGroup startGroupSize ok n) : NodeInv env cp n :=
  h.invariant (I := NodeInv env cp) (NodeInv.initial _ _) (fun _ _ _ hn _ hstep => hn.step hstep)

lemma TipStep.sparkState_of_chain_eq (hstep : TipStep env cp other n block index n')
    (hchain : n'.chain = n.chain) : n'.sparkState = n.sparkState := by
  cases hstep with
  | refused => rfl
  | failed => rfl
  | genesis => rfl
  | connected _ _ n₁ b _ => exact absurd hchain (List.cons_ne_self b n.chain)

/-- What connects and disconnects keep, and what only depends on the Spark data, holds of
every node that a run reaches. -/
lemma Reachable.spark_induction
    (h : Reachable env cp maxCoinInGroup startGroupSize ok n) {I : Node Coin Tag Proof → Prop}
    (hinit : I (Node.initial maxCoinInGroup startGroupSize))
    (hconnect : ∀ n n' block other index, NodeInv env cp n → I n → ok n (.connectTip block other) →
      n.step env cp (.connectTip block other) = some n' →
      n.indexOf cp block = some index → TipStep env cp other n block index n' → I n')
    (hdisconnect : ∀ n n' batching, NodeInv env cp n → I n → n.disconnectTip env batching =
      some n' → I n')
    (hcaches : ∀ n n' : Node Coin Tag Proof, n.SparkEq n' → I n → I n') : I n := by
  induction h with
  | init => exact hinit
  | @step n n' a hreach hok hstep ih =>
    have hn := nodeInv_of_reachable hreach
    by_cases hc : ∃ block other, a = .connectTip block other
    · obtain ⟨block, other, rfl⟩ := hc
      obtain ⟨index, hentry, htip⟩ := hn.connectTip_cases hstep
      exact hconnect n n' block other index hn ih hok hstep hentry htip
    by_cases hd : ∃ batching, a = .disconnectTip batching
    · obtain ⟨batching, rfl⟩ := hd
      exact hdisconnect n n' batching hn ih hstep
    · refine hcaches n n' (Node.sparkEq_of_step hstep ?_ ?_) ih
      · exact fun block other heq => hc ⟨block, other, heq⟩
      · exact fun batching heq => hd ⟨batching, heq⟩

/-- A block that is refused changes only the caches. -/
lemma NodeInv.connectBlock_eq_error (h : NodeInv env cp n)
    (hentry : n.indexOf cp block = some index) (he : e ≠ .abort)
    (herror : connectBlock env cp other false false (n, index) = .error e (n', b)) :
    ∃ checkedSpends batch, n' = n.withCaches checkedSpends batch := by
  have hnext := h.nextBlock_of_ne hentry
  exact (Firo.Spark.connectBlock_eq_error he (fun hg => (hnext hg).next) h.namesInv
    (fun hg => (hnext hg).recordable) herror).1

lemma NodeInv.connectBlockSpark_eq_error (h : NodeInv env cp n)
    (hentry : n.indexOf cp block = some index)
    (hgenesis : index.block.hash ≠ cp.hashGenesisBlock) {ctx}
    {u} (hctx : connectTransactions env cp (n.view false) other false index.nHeight
      index.block.vtx 0 [] 0 ⟨some {}, n.checkedSpends, n.startBatch other⟩ = .ok u ctx)
    (he : e ≠ .abort)
    (herror : connectBlockSpark env cp other index.block
      ((ctx.sparkTxInfo.getD {}).complete env) false false
      (n.withCaches ctx.checkedSpends ctx.batch, index) = .error e (n', b)) :
    connectBlockSparkChecks cp index.block ((ctx.sparkTxInfo.getD {}).complete env)
      index.nHeight n.sparkState = .error e ∧ n' = n.withCaches ctx.checkedSpends ctx.batch := by
  have hnext := h.nextBlock_of_ne hentry hgenesis
  obtain ⟨info, haccepted, hfilling⟩ := connectTransactions_eq_ok ⟨rfl, rfl⟩ hnext.next hctx
  rw [hfilling.info_eq, Option.getD_some] at herror ⊢
  obtain rfl | ⟨hchecks, rfl, -⟩ := Firo.Spark.connectBlockSpark_eq_error
    (by exact (haccepted.connecting h.namesInv hnext.recordable).2) herror
  · exact absurd rfl he
  · exact ⟨hchecks, rfl⟩

/-- A block that `ConnectBlock` refuses, or only checks, leaves the Spark state and the
names as they are, and behind the first `AddSpend` `ConnectBlockSpark` does not fail. -/
theorem connectBlock_leaves_spark {maxCoinInGroup startGroupSize : Nat}
    {ok : Node Coin Tag Proof → Action Coin Tag → Prop}
    (h : Reachable env cp maxCoinInGroup startGroupSize ok n) :
    (∀ block index other e n' b, n.indexOf cp block = some index →
      connectBlock env cp other false false (n, index) = .error e (n', b) → e ≠ .abort →
      n'.sparkState = n.sparkState ∧ n'.sparkNameManager = n.sparkNameManager) ∧
    (∀ index other isVerifyDB n' b,
      (connectBlock env cp other true isVerifyDB (n, index) = .ok () (n', b) ∨
        ∃ e, connectBlock env cp other true isVerifyDB (n, index) = .error e (n', b)) →
      n'.sparkState = n.sparkState ∧ n'.sparkNameManager = n.sparkNameManager) ∧
    (∀ block index other ctx e n' b, n.indexOf cp block = some index →
      index.block.hash ≠ cp.hashGenesisBlock →
      connectTransactions env cp (n.view false) other false index.nHeight index.block.vtx 0 [] 0
        ⟨some {}, n.checkedSpends, n.startBatch other⟩ = .ok () ctx →
      connectBlockSpark env cp other index.block ((ctx.sparkTxInfo.getD {}).complete env)
        false false (n.withCaches ctx.checkedSpends ctx.batch, index) = .error e (n', b) →
      e ≠ .abort →
      connectBlockSparkChecks cp index.block ((ctx.sparkTxInfo.getD {}).complete env)
        index.nHeight n.sparkState = .error e ∧
        n' = n.withCaches ctx.checkedSpends ctx.batch) := by
  have hn := nodeInv_of_reachable h
  refine ⟨?_, ?_, ?_⟩
  · intro block index other e n' b hentry herror he
    obtain ⟨checkedSpends, batch, rfl⟩ := hn.connectBlock_eq_error hentry he herror
    exact ⟨rfl, rfl⟩
  · intro index other isVerifyDB n' b hresult
    have hkeeps : Keeps (fun y => n.SparkEq y.1)
        (connectBlock env cp other true isVerifyDB) := keeps_connectBlock isVerifyDB
    have hindex := hkeeps (n, index) (Node.SparkEq.refl n)
    rcases hresult with hok | ⟨e, herror⟩
    · exact ⟨(hindex.1 _ _ hok).sparkState, (hindex.1 _ _ hok).sparkNameManager⟩
    · exact ⟨(hindex.2 _ _ herror).sparkState, (hindex.2 _ _ herror).sparkNameManager⟩
  · intro block index other ctx e n' b hentry hgenesis hctx herror he
    exact hn.connectBlockSpark_eq_error hentry hgenesis hctx he herror

/-- A node with one minted coin refuses a block that spends more than the coin. -/
theorem connectBlock_leaves_spark_overspend : ∃ n n' : Node Toy.Coin UInt8 Toy.Coin, ∃ index b,
      Reachable Toy.env (Toy.params 1) 3 1 (fun _ _ => True) n ∧
      n.sparkState.latestCoinId = 1 ∧
      connectBlock Toy.env (Toy.params 1) {} false false (n, index) =
        .error (.dos 200 REJECT_INVALID "bad-txns-zerocoin") (n', b) ∧
      n'.sparkState = n.sparkState ∧ n'.sparkNameManager = n.sparkNameManager := by
  have hrun : ([Toy.connect 0 [], Toy.connect 1 [Toy.mintTx 1 [(7, 50)]]].foldlM
      (Node.step Toy.env (Toy.params 1)) (Node.initial 3 1)).any (fun n =>
        n.sparkState.latestCoinId == 1 &&
        (n.indexOf (Toy.params 1) (Toy.block 2 [Toy.spendTx 2 [1, 1, 1, 0, 7, 50]
          [⟨60, [0]⟩, ⟨0, [OP_SPARKSMINT, 1, 8, 9]⟩]])).any fun index =>
        match connectBlock Toy.env (Toy.params 1) {} false false (n, index) with
        | .ok _ _ => false
        | .error e _ => e == .dos 200 REJECT_INVALID "bad-txns-zerocoin") = true := by
    decide +kernel
  obtain ⟨n, hn, htest⟩ := (Option.any_eq_true ..).mp hrun
  simp only [Bool.and_eq_true, beq_iff_eq, Option.any_eq_true] at htest
  obtain ⟨hlatest, index, hentry, hresult⟩ := htest
  have hreach : Reachable Toy.env (Toy.params 1) 3 1 (fun _ _ => True) n :=
    Reach.of_foldlM .init (fun _ _ _ => trivial) hn
  split at hresult
  case h_1 => cases hresult
  case h_2 e y herror =>
    obtain rfl := eq_of_beq hresult
    obtain ⟨hstate, hnames⟩ := (connectBlock_leaves_spark hreach).1 _ _ _ _ _ _ hentry herror
      (by simp)
    exact ⟨n, y.1, index, y.2, hreach, hlatest, herror, hstate, hnames⟩

lemma Toy.reachable_mint : ∃ n : Node Toy.Coin UInt8 Toy.Coin,
    Reachable Toy.env (Toy.params 1) 3 1 (fun _ _ => True) n ∧ n.chain.length = 2 ∧
      n.sparkState.mintedCoins ⟨0, 7, 50⟩ = some ⟨1, 1⟩ := by
  have hrun : ([Toy.connect 0 [], Toy.connect 1 [Toy.mintTx 1 [(7, 50)]]].foldlM
      (Node.step Toy.env (Toy.params 1)) (Node.initial 3 1)).any (fun n => decide
        (n.chain.length = 2 ∧ n.sparkState.mintedCoins ⟨0, 7, 50⟩ = some ⟨1, 1⟩)) = true := by
    decide +kernel
  obtain ⟨n, hn, htest⟩ := (Option.any_eq_true ..).mp hrun
  exact ⟨n, Reach.of_foldlM .init (fun _ _ _ => trivial) hn, of_decide_eq_true htest⟩

end Firo.Spark
