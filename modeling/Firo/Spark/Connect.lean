import Firo.Spark.History
import Firo.Spark.Tree

/-! What `ConnectBlock` does to a node when it succeeds, and that it leaves the Spark state and the
names alone when it fails. -/
namespace Firo.Spark

open Firo.Lib CSparkNameManager

variable {Coin Tag Proof : Type} [DecidableEq Coin] [DecidableEq Tag]

section

variable {cp : ConsensusParams} {n : Node Coin Tag Proof} {b : CBlockIndex Coin Tag}
  {own : Std.ExtTreeMap String CSparkNameTxData}

omit [DecidableEq Coin] [DecidableEq Tag] in
lemma indexSparkNames_of_ok {l : List (String × CSparkNameTxData)}
    {b'} (h : l.foldlM (indexSparkName n.sparkNameManager cp) b = .ok b') :
    indexSparkNames cp l (n, b) = .ok () (n, b') := by
  induction l generalizing b with
  | nil =>
    obtain rfl := Except.ok.inj h
    rfl
  | cons e l ih =>
    rw [List.foldlM_cons] at h
    obtain ⟨b₁, hb₁, hrest⟩ := except_bind_eq_ok.mp h
    rw [indexSparkNames, get_bind_apply]
    change (liftCheck (indexSparkName n.sparkNameManager cp b e) >>= _) (n, b) = _
    rw [hb₁]
    exact ih hrest

def connectRest (cp : ConsensusParams) (own : Std.ExtTreeMap String CSparkNameTxData)
    (setHash : Option (List UInt8)) : ConnectM Coin Tag Proof Unit := do
  indexSparkNames cp own.toList
  modify fun (n, index) => (n, match setHash with
    | some hash => { index with
        sparkSetHash := index.sparkSetHash.insert n.sparkState.latestCoinId hash }
    | none => index)
  connectNames cp (!own.isEmpty)

def CBlockIndex.withSetHash (b : CBlockIndex Coin Tag) (latestCoinId : Int) :
    Option (List UInt8) → CBlockIndex Coin Tag
  | some hash => { b with sparkSetHash := b.sparkSetHash.insert latestCoinId hash }
  | none => b

section

variable (latestCoinId : Int) (setHash : Option (List UInt8))

omit [DecidableEq Coin] [DecidableEq Tag]

@[simp] lemma CBlockIndex.withSetHash_block :
    (b.withSetHash latestCoinId setHash).block = b.block := by
  cases setHash <;> rfl

@[simp] lemma CBlockIndex.withSetHash_nHeight :
    (b.withSetHash latestCoinId setHash).nHeight = b.nHeight := by
  cases setHash <;> rfl

@[simp] lemma CBlockIndex.withSetHash_sparkMintedCoins :
    (b.withSetHash latestCoinId setHash).sparkMintedCoins = b.sparkMintedCoins := by
  cases setHash <;> rfl

@[simp] lemma CBlockIndex.withSetHash_spentLTags :
    (b.withSetHash latestCoinId setHash).spentLTags = b.spentLTags := by
  cases setHash <;> rfl

@[simp] lemma CBlockIndex.withSetHash_addedSparkNames :
    (b.withSetHash latestCoinId setHash).addedSparkNames = b.addedSparkNames := by
  cases setHash <;> rfl

@[simp] lemma CBlockIndex.withSetHash_removedSparkNames :
    (b.withSetHash latestCoinId setHash).removedSparkNames = b.removedSparkNames := by
  cases setHash <;> rfl

end

omit [DecidableEq Coin] [DecidableEq Tag] in
lemma connectRest_eq (h : Connecting n.sparkNameManager cp own b) (setHash) :
    ∃ m' b', n.sparkNameManager.connect cp (b.withSetHash n.sparkState.latestCoinId setHash) own =
        .ok (m', b') ∧
      connectRest cp own setHash (n, b) = .ok () ({ n with
        sparkNameManager := m'
        checkedSpends :=
          if b.nHeight + 1 = cp.nSparkChaumV2StartBlock then [] else n.checkedSpends }, b') := by
  have haccepted : ∀ e ∈ own.toList, NameAccepted n.sparkNameManager e.1 e.2 := fun e he =>
    h.accepted.accepted e.1 e.2 (Std.ExtTreeMap.mem_toList_iff_getElem?_eq_some.mp he)
  have hindexed : own.toList.foldlM (indexSparkName n.sparkNameManager cp) b = _ :=
    foldlM_indexSparkName h.inv haccepted b
  cases setHash with
  | none =>
    refine ⟨_, _, by unfold connect; rw [foldlM_indexSparkName h.inv haccepted]; rfl, ?_⟩
    unfold connectRest
    rw [estate_bind_of_ok (indexSparkNames_of_ok hindexed)]
    rfl
  | some hash =>
    refine ⟨_, _, by unfold connect; rw [foldlM_indexSparkName h.inv haccepted]; rfl, ?_⟩
    unfold connectRest
    rw [estate_bind_of_ok (indexSparkNames_of_ok hindexed)]
    rfl

end

section

variable {env : SparkEnv Coin Tag Proof} {cp : ConsensusParams} {other : OtherChecks}
  {block : CBlock} {info : CSparkTxInfo Coin Tag} {n n' : Node Coin Tag Proof}
  {index b : CBlockIndex Coin Tag}

def CBlockIndex.cleared (b : CBlockIndex Coin Tag) : CBlockIndex Coin Tag :=
  { b with sparkMintedCoins := ∅, spentLTags := [], sparkSetHash := ∅ }

def connectBlockSparkChecks (cp : ConsensusParams) (block : CBlock) (info : CSparkTxInfo Coin Tag)
    (nHeight : Int) (s : CSparkState Coin Tag) : Except Reject Unit := do
  checkSparkBlock cp block nHeight
  info.spentLTags.forM fun lTag => checkLTag (some info) lTag.1 nHeight true s

def connectAllMints (env : SparkEnv Coin Tag Proof) (cp : ConsensusParams) (other : OtherChecks)
    (mints : List Coin) : ConnectM Coin Tag Proof (Option (List UInt8)) :=
  if mints.isEmpty then pure none else some <$> connectMints env cp other mints

lemma connectBlockSpark_eq : connectBlockSpark env cp other block info false false (n, index) =
      (do
        liftCheck (connectBlockSparkChecks cp block info index.nHeight n.sparkState)
        connectSpends info
        let setHash ← connectAllMints env cp other info.mints
        connectRest cp info.sparkNames setHash : ConnectM Coin Tag Proof Unit)
        (n, index.cleared) := by
  unfold connectBlockSpark
  simp only [Bool.not_false, if_true, modify_bind_apply, get_bind_apply]
  unfold connectBlockSparkChecks connectAllMints
  cases checkSparkBlock cp block index.nHeight with
  | error e => rfl
  | ok u =>
    cases info.mints.isEmpty with
    | true => rfl
    | false => rfl

def SetHashOf (env : SparkEnv Coin Tag Proof) (cp : ConsensusParams) (other : OtherChecks)
    (s : CSparkState Coin Tag) (chain : List (CBlockIndex Coin Tag)) (b : CBlockIndex Coin Tag)
    (mints : List Coin) (setHash : Option (List UInt8)) : Prop :=
  mints = [] ∧ setHash = none ∨
    mints ≠ [] ∧ ∃ input, setHashInput env other s chain (includeFirstBlockSetHash cp b.nHeight)
      ((b.sparkMintedCoins[s.latestCoinId]?).getD []) = some input ∧
      setHash = some (env.hash256 input)

variable {mints : List Coin}

omit [DecidableEq Tag] in
lemma connectAllMints_eq_ok {setHash}
    (h : connectAllMints env cp other mints (n, index) = .ok setHash (n', b)) :
    ∃ s, n' = { n with sparkState := s } ∧ (if mints.isEmpty then some (n.sparkState, index)
        else n.sparkState.addMintsToStateAndBlockIndex index n.chain mints) = some (s, b) ∧
      SetHashOf env cp other s n.chain b mints setHash := by
  unfold connectAllMints at h
  cases hempty : mints.isEmpty with
  | true =>
    rw [hempty, if_pos rfl] at h
    obtain ⟨rfl, hn⟩ := estate_pure_eq_ok.mp h
    cases hn
    exact ⟨n.sparkState, rfl, rfl, .inl ⟨by simpa using hempty, rfl⟩⟩
  | false =>
    rw [hempty, if_neg Bool.false_ne_true] at h
    have hne : mints ≠ [] := by simpa using hempty
    change (connectMints env cp other mints >>= fun hash => pure (some hash)) (n, index) = _ at h
    obtain ⟨hash, x, hmints, hpure⟩ := estate_bind_eq_ok.mp h
    obtain ⟨rfl, rfl⟩ := estate_pure_eq_ok.mp hpure
    unfold connectMints at hmints
    simp only [get_bind_apply, liftCheck_bind_eq_ok, orReject_eq_ok, set_bind_apply] at hmints
    obtain ⟨⟨s, b₁⟩, hadd, input, hinput, hlast⟩ := hmints
    obtain ⟨rfl, hx⟩ := estate_pure_eq_ok.mp hlast
    cases hx
    exact ⟨s, rfl, hadd, .inr ⟨hne, input, hinput, rfl⟩⟩

variable {e : Reject} {s s' : CSparkState Coin Tag} {chain : List (CBlockIndex Coin Tag)}

omit [DecidableEq Tag] in
lemma connectAllMints_eq_error {x}
    (h : connectAllMints env cp other mints (n, index) = .error e x) : e = .abort := by
  unfold connectAllMints at h
  split at h
  case isTrue => cases h
  case isFalse =>
    change (connectMints env cp other mints >>= fun hash => pure (some hash)) (n, index) = _ at h
    rw [estate_bind_eq_error] at h
    rcases h with hmints | ⟨hash, y, -, hpure⟩
    · unfold connectMints at hmints
      simp only [get_bind_apply, liftCheck_bind_eq_error, orReject_eq_error, set_bind_apply,
        orReject_eq_ok] at hmints
      rcases hmints with ⟨⟨-, rfl⟩, -⟩ | ⟨⟨s, b₁⟩, -, ⟨⟨-, rfl⟩, -⟩ | ⟨input, -, hpure⟩⟩
      · rfl
      · rfl
      · cases hpure
    · cases hpure

structure SparkConnected (env : SparkEnv Coin Tag Proof) (cp : ConsensusParams)
    (other : OtherChecks) (block : CBlock) (info : CSparkTxInfo Coin Tag)
    (n : Node Coin Tag Proof) (index : CBlockIndex Coin Tag) (n' : Node Coin Tag Proof)
    (b b₁ : CBlockIndex Coin Tag) (setHash : Option (List UInt8)) : Prop where
  checks : connectBlockSparkChecks cp block info index.nHeight n.sparkState = .ok ()
  state : n.sparkState.connect index n.chain info.spentLTags info.mints = some (n'.sparkState, b₁)
  setHash_of : SetHashOf env cp other n'.sparkState n.chain b₁ info.mints setHash
  names : n.sparkNameManager.connect cp (b₁.withSetHash n'.sparkState.latestCoinId setHash)
    info.sparkNames = .ok (n'.sparkNameManager, b)
  node : n' = { n with
    sparkState := n'.sparkState
    sparkNameManager := n'.sparkNameManager
    checkedSpends :=
      if index.nHeight + 1 = cp.nSparkChaumV2StartBlock then [] else n.checkedSpends }

omit [DecidableEq Tag] in
lemma addMints_index_eq (h : s.addMintsToStateAndBlockIndex index chain mints = some (s', b)) :
    b = { index with sparkMintedCoins := b.sparkMintedCoins } := by
  unfold CSparkState.addMintsToStateAndBlockIndex at h
  obtain ⟨p, -, hp⟩ := Option.map_eq_some_iff.mp h
  clear h
  induction mints generalizing p index with
  | nil =>
    obtain ⟨-, rfl⟩ := Prod.mk.inj hp
    rfl
  | cons mint mints ih =>
    have hb := ih _ hp
    rw [hb]
    rfl

lemma connect_index_eq {lTags} (h : s.connect index chain lTags mints = some (s', b)) :
    b = { index.cleared with spentLTags := lTags, sparkMintedCoins := b.sparkMintedCoins } := by
  unfold CSparkState.connect at h
  dsimp only at h
  split at h
  case isTrue =>
    obtain ⟨-, rfl⟩ := Prod.mk.inj (Option.some.inj h)
    rfl
  case isFalse => exact addMints_index_eq h

omit [DecidableEq Coin] [DecidableEq Tag] in
lemma CSparkNameManager.Connecting.of_index {m} {own} (h : Connecting m cp own index)
    (hheight : b.nHeight = index.nHeight) (hadded : b.addedSparkNames = index.addedSparkNames)
    (hremoved : b.removedSparkNames = index.removedSparkNames) : Connecting m cp own b := by
  refine ⟨h.inv, h.accepted, ?_, ?_⟩
  · rw [hadded, hheight]
    exact h.recordable.added
  · rw [hremoved, hheight]
    exact h.recordable.removed

lemma connectBlockSpark_eq_ok {u : Unit}
    (hconn : Connecting n.sparkNameManager cp info.sparkNames index)
    (h : connectBlockSpark env cp other block info false false (n, index) = .ok u (n', b)) :
    ∃ b₁ setHash, SparkConnected env cp other block info n index n' b b₁ setHash := by
  rw [connectBlockSpark_eq] at h
  obtain ⟨_, hchecks, hrest⟩ := liftCheck_bind_eq_ok.mp h
  unfold connectSpends at hrest
  rw [modify_bind_apply] at hrest
  obtain ⟨setHash, ⟨n₁, b₁⟩, hmints, hlast⟩ := estate_bind_eq_ok.mp hrest
  obtain ⟨s, rfl, hadd, hhash⟩ := connectAllMints_eq_ok hmints
  have hstate : n.sparkState.connect index n.chain info.spentLTags info.mints = some (s, b₁) := hadd
  have hb₁ := connect_index_eq hstate
  have hconn₁ : Connecting n.sparkNameManager cp info.sparkNames b₁ :=
    hconn.of_index (by rw [hb₁]; rfl) (by rw [hb₁]; rfl) (by rw [hb₁]; rfl)
  obtain ⟨m', b', hnames, hrun⟩ := connectRest_eq
    (show Connecting ({ n with sparkState := s } : Node Coin Tag Proof).sparkNameManager cp
      info.sparkNames b₁ from hconn₁) setHash
  have heq := hrun.symm.trans hlast
  injection heq with _ heq
  cases heq
  refine ⟨b₁, setHash, hchecks, hstate, hhash, hnames, ?_⟩
  have hheight : b₁.nHeight = index.nHeight := by
    rw [hb₁]
    rfl
  simp only [hheight]

lemma connectBlockSpark_eq_error (hconn : Connecting n.sparkNameManager cp info.sparkNames index)
    (h : connectBlockSpark env cp other block info false false (n, index) = .error e (n', b)) :
    e = .abort ∨ connectBlockSparkChecks cp block info index.nHeight n.sparkState = .error e ∧
      n' = n ∧ b = index.cleared := by
  rw [connectBlockSpark_eq, liftCheck_bind_eq_error] at h
  rcases h with ⟨hchecks, hx⟩ | ⟨_, hchecks, hrest⟩
  · cases hx
    exact .inr ⟨hchecks, rfl, rfl⟩
  · left
    unfold connectSpends at hrest
    rw [modify_bind_apply, estate_bind_eq_error] at hrest
    rcases hrest with hmints | ⟨setHash, ⟨n₁, b₁⟩, hmints, hlast⟩
    · exact connectAllMints_eq_error hmints
    · obtain ⟨s, rfl, hadd, -⟩ := connectAllMints_eq_ok hmints
      have hstate : n.sparkState.connect index n.chain info.spentLTags info.mints =
          some (s, b₁) := hadd
      have hb₁ := connect_index_eq hstate
      have hconn₁ : Connecting n.sparkNameManager cp info.sparkNames b₁ :=
        hconn.of_index (by rw [hb₁]; rfl) (by rw [hb₁]; rfl) (by rw [hb₁]; rfl)
      obtain ⟨m', b', -, hrun⟩ := connectRest_eq
        (show Connecting ({ n with sparkState := s } : Node Coin Tag Proof).sparkNameManager cp
          info.sparkNames b₁ from hconn₁) setHash
      cases hrun.symm.trans hlast

end

section

variable {env : SparkEnv Coin Tag Proof} {cp : ConsensusParams} {other : OtherChecks}
  {n n' : Node Coin Tag Proof} {index b : CBlockIndex Coin Tag}

def Node.startBatch (n : Node Coin Tag Proof) (other : OtherChecks) :
    BatchProofContainer (SpendTransaction Coin Tag Proof) :=
  { n.batch with fCollectProofs := other.shouldBatchSparkProofs }.init

def Node.withCaches (n : Node Coin Tag Proof) (checkedSpends : List Uint256)
    (batch : BatchProofContainer (SpendTransaction Coin Tag Proof)) : Node Coin Tag Proof :=
  { n with checkedSpends, batch }

structure Connection (env : SparkEnv Coin Tag Proof) (cp : ConsensusParams)
    (other : OtherChecks) (n : Node Coin Tag Proof) (index : CBlockIndex Coin Tag)
    (n' : Node Coin Tag Proof) (b : CBlockIndex Coin Tag) where
  ctx : CheckCtx Coin Tag Proof
  info : CSparkTxInfo Coin Tag
  b₁ : CBlockIndex Coin Tag
  setHash : Option (List UInt8)
  accepted : TxsAccepted env cp (n.view false) index.nHeight [] index.block.vtx
    ⟨some {}, n.checkedSpends, n.startBatch other⟩ {} ctx info
  filling : ctx.Filling info
  duplicates : cp.nSparkChaumV2StartBlock ≤ index.nHeight →
    checkSparkMintDuplicates env n.sparkState index.nHeight (info.complete env).mints [] = .ok ()
  spark : SparkConnected env cp other index.block (info.complete env)
    (n.withCaches ctx.checkedSpends ctx.batch) index { n' with batch := ctx.batch } b b₁ setHash
  batch_eq : n'.batch = ctx.batch.finalize

variable {y : Node Coin Tag Proof × CBlockIndex Coin Tag}

variable {x : CheckM Coin Tag Proof Unit} {e : Reject}

section

omit [DecidableEq Coin] [DecidableEq Tag]

lemma runChecks_eq_ok {info} (h : runChecks x (n, index) = .ok info y) :
    ∃ u ctx, x ⟨some {}, n.checkedSpends, n.batch⟩ = .ok u ctx ∧
      info = ctx.sparkTxInfo.getD {} ∧ y = (n.withCaches ctx.checkedSpends ctx.batch, index) := by
  unfold runChecks at h
  dsimp only at h
  split at h
  case h_1 u ctx hx =>
    injection h with hinfo hy
    exact ⟨u, ctx, hx, hinfo.symm, hy.symm⟩
  case h_2 => cases h

lemma runChecks_eq_error (h : runChecks x (n, index) = .error e y) :
    ∃ checkedSpends batch, y = (n.withCaches checkedSpends batch, index) := by
  unfold runChecks at h
  dsimp only at h
  split at h
  case h_1 => cases h
  case h_2 e' ctx hx =>
    injection h with _ hy
    exact ⟨ctx.checkedSpends, ctx.batch, hy.symm⟩

end

def connectBlockEnd (env : SparkEnv Coin Tag Proof) (cp : ConsensusParams) (other : OtherChecks)
    (block : CBlock) (info : CSparkTxInfo Coin Tag) : ConnectM Coin Tag Proof Unit := do
  liftCheck (verdict other.afterTransactions)
  connectBlockSpark env cp other block info false false
  modify fun (n, index) => ({ n with batch := n.batch.finalize }, index)

lemma connectBlock_eq (hgenesis : index.block.hash ≠ cp.hashGenesisBlock) :
    connectBlock env cp other false false (n, index) =
      (liftCheck (do verdict other.checkBlock; verdict other.beforeTransactions) >>=
        fun _ : Unit => modify (fun x => (x.1.withCaches x.1.checkedSpends (x.1.startBatch other),
          x.2)) >>= fun _ =>
        runChecks (connectTransactions env cp (n.view false) other false index.nHeight
          index.block.vtx 0 [] 0) >>= fun info =>
        liftCheck (if cp.nSparkChaumV2StartBlock ≤ index.nHeight then
          checkSparkMintDuplicates env n.sparkState index.nHeight (info.complete env).mints []
          else .ok ()) >>= fun _ : Unit =>
        connectBlockEnd env cp other index.block (info.complete env) :
          ConnectM Coin Tag Proof Unit) (n, index) := by
  unfold connectBlock
  simp only [get_bind_apply, if_neg hgenesis]
  cases other.checkBlock with
  | some r => rfl
  | none =>
    cases other.beforeTransactions with
    | some r => rfl
    | none =>
      by_cases hv2 : cp.nSparkChaumV2StartBlock ≤ index.nHeight
      · simp only [if_pos hv2]
        rfl
      · simp only [if_neg hv2]
        rfl

omit [DecidableEq Coin] in
lemma TxsAccepted.connecting {ctx ctx'} {info} (hnames : NamesInv n.sparkNameManager)
    (hrec : Recordable n.sparkNameManager.core cp (index.own env.names cp) index)
    (h : TxsAccepted env cp (n.view false) index.nHeight [] index.block.vtx ctx {} ctx' info) :
    info.sparkNames = index.own env.names cp ∧
      Connecting n.sparkNameManager cp info.sparkNames index := by
  obtain ⟨haccepted, hown⟩ := checkBlockNames_eq_ok NamesAccepted.empty h.checkBlockNames
  have hown' : info.sparkNames = index.own env.names cp := hown
  exact ⟨hown', hnames, haccepted, hown' ▸ hrec⟩

lemma connectBlock_eq_ok {u : Unit} (hgenesis : index.block.hash ≠ cp.hashGenesisBlock)
    (hheight : nextBlockHeight n.chain = index.nHeight) (hnames : NamesInv n.sparkNameManager)
    (hrec : Recordable n.sparkNameManager.core cp (index.own env.names cp) index)
    (h : connectBlock env cp other false false (n, index) = .ok u (n', b)) :
    Nonempty (Connection env cp other n index n' b) := by
  rw [connectBlock_eq hgenesis] at h
  obtain ⟨_, -, hmod⟩ := liftCheck_bind_eq_ok.mp h
  rw [modify_bind_apply] at hmod
  obtain ⟨info₀, y, hrun, hrest⟩ := estate_bind_eq_ok.mp hmod
  obtain ⟨_, ctx, hctx, rfl, rfl⟩ := runChecks_eq_ok hrun
  obtain ⟨info, haccepted, hfilling⟩ := connectTransactions_eq_ok ⟨rfl, rfl⟩ hheight hctx
  rw [hfilling.info_eq, Option.getD_some] at hrest
  obtain ⟨_, hdup, hend⟩ := liftCheck_bind_eq_ok.mp hrest
  obtain ⟨_, -, hspark⟩ := liftCheck_bind_eq_ok.mp hend
  obtain ⟨_, ⟨n₁, b'⟩, hconnect, hlast⟩ := estate_bind_eq_ok.mp hspark
  have hx := estate_modify_eq_ok.mp hlast
  cases hx
  obtain ⟨b₁, setHash, hspark'⟩ :=
    connectBlockSpark_eq_ok (by exact (haccepted.connecting hnames hrec).2) hconnect
  have hbatch : n₁.batch = ctx.batch := by
    rw [hspark'.node]
    rfl
  refine ⟨⟨ctx, info, b₁, setHash, haccepted, hfilling, fun hv2 => ?_, ?_, ?_⟩⟩
  · rwa [if_pos hv2] at hdup
  · have hsame : ({ n₁ with batch := ctx.batch } : Node Coin Tag Proof) = n₁ := by
      rw [← hbatch]
    change SparkConnected _ _ _ _ _ _ _ { n₁ with batch := ctx.batch } _ _ _
    rw [hsame]
    exact hspark'
  · exact congrArg BatchProofContainer.finalize hbatch

lemma connectBlock_eq_error (he : e ≠ .abort)
    (hheight : index.block.hash ≠ cp.hashGenesisBlock → nextBlockHeight n.chain = index.nHeight)
    (hnames : NamesInv n.sparkNameManager)
    (hrec : index.block.hash ≠ cp.hashGenesisBlock →
      Recordable n.sparkNameManager.core cp (index.own env.names cp) index)
    (h : connectBlock env cp other false false (n, index) = .error e (n', b)) :
    (∃ checkedSpends batch, n' = n.withCaches checkedSpends batch) ∧
      (b = index ∨ b = index.cleared) := by
  by_cases hgenesis : index.block.hash = cp.hashGenesisBlock
  · unfold connectBlock at h
    simp only [get_bind_apply, if_pos hgenesis, liftCheck_bind_eq_error] at h
    rcases h with ⟨-, hx⟩ | ⟨_, -, ⟨-, hx⟩ | ⟨_, -, hpure⟩⟩
    · cases hx
      exact ⟨⟨n.checkedSpends, n.batch, rfl⟩, .inl rfl⟩
    · cases hx
      exact ⟨⟨n.checkedSpends, n.batch, rfl⟩, .inl rfl⟩
    · cases hpure
  · rw [connectBlock_eq hgenesis, liftCheck_bind_eq_error] at h
    rcases h with ⟨-, hx⟩ | ⟨_, -, hmod⟩
    · cases hx
      exact ⟨⟨n.checkedSpends, n.batch, rfl⟩, .inl rfl⟩
    · rw [modify_bind_apply, estate_bind_eq_error] at hmod
      rcases hmod with hrun | ⟨info₀, y, hrun, hrest⟩
      · obtain ⟨checkedSpends, batch, hy⟩ := runChecks_eq_error hrun
        cases hy
        exact ⟨⟨checkedSpends, batch, rfl⟩, .inl rfl⟩
      · obtain ⟨_, ctx, hctx, rfl, rfl⟩ := runChecks_eq_ok hrun
        obtain ⟨info, haccepted, hfilling⟩ :=
          connectTransactions_eq_ok ⟨rfl, rfl⟩ (hheight hgenesis) hctx
        rw [hfilling.info_eq, Option.getD_some, liftCheck_bind_eq_error] at hrest
        rcases hrest with ⟨-, hx⟩ | ⟨_, -, hend⟩
        · cases hx
          exact ⟨⟨ctx.checkedSpends, ctx.batch, rfl⟩, .inl rfl⟩
        · unfold connectBlockEnd at hend
          rw [liftCheck_bind_eq_error] at hend
          rcases hend with ⟨-, hx⟩ | ⟨_, -, hspark⟩
          · cases hx
            exact ⟨⟨ctx.checkedSpends, ctx.batch, rfl⟩, .inl rfl⟩
          · rw [estate_bind_eq_error] at hspark
            rcases hspark with hfail | ⟨_, y, -, hlast⟩
            · obtain rfl | ⟨-, rfl, rfl⟩ := connectBlockSpark_eq_error
                (by exact (haccepted.connecting hnames (hrec hgenesis)).2) hfail
              · exact absurd rfl he
              · exact ⟨⟨ctx.checkedSpends, ctx.batch, rfl⟩, .inr rfl⟩
            · cases hlast

end

end Firo.Spark
