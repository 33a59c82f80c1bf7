import Firo.Wallet.ChainFollow

/-! Every step keeps what the wallet knows of the active chain, or leaves a task behind that will
bring it up to date. -/
namespace Firo.Wallet

open Firo.Lib Firo.Spark List Option WalletNode

variable {Coin Tag Proof Context K Hash : Type} [DecidableEq Coin] [DecidableEq Tag]
  [Ord Hash] [Std.TransOrd Hash] [Std.LawfulEqOrd Hash] [DecidableEq Hash]
  {env : SparkEnv Coin Tag Proof} {wallet : WalletEnv Coin Tag Context K Hash}
  {cp : ConsensusParams} {s s' s₁ : WalletNode Coin Tag Proof Context K Hash}
  {b b' : CBlockIndex Coin Tag} {coin : Coin × Context} {h : Hash}

/-- A coin of the wallet that a block of the chain has recorded, and the hash of its tag. -/
structure Owned (env : SparkEnv Coin Tag Proof) (wallet : WalletEnv Coin Tag Context K Hash)
    (chain : List (CBlockIndex Coin Tag)) (b : CBlockIndex Coin Tag) (coin : Coin × Context)
    (h : Hash) : Prop where
  block_mem : b ∈ chain
  coin_mem : coin ∈ blockMintCoins env wallet b.block
  records : b.Records coin.1
  key : wallet.key coin = some h

def Shows (s : WalletNode Coin Tag Proof Context K Hash) (coin : Coin) (h : Hash) : Prop :=
  ∃ mint, s.sparkWallet.coinMeta[h]? = some mint ∧ EntryOf s.node.sparkState coin mint

def MarksUsed (s : WalletNode Coin Tag Proof Context K Hash) (h : Hash) : Prop :=
  ∃ mint, s.sparkWallet.coinMeta[h]? = some mint ∧ mint.isUsed = true

/-- What holds of a node with its wallet: the last task that writes an entry for a coin of the
chain is the one of its block, and no such task is behind the one of a block that spends it. -/
structure Follows (env : SparkEnv Coin Tag Proof) (wallet : WalletEnv Coin Tag Context K Hash)
    (cp : ConsensusParams) (s : WalletNode Coin Tag Proof Context K Hash) : Prop where
  node : NodeInv env cp s.node
  indexed : TagsIndexed env s.node
  sound : ChainSound env wallet s.node.chain
  minted : ∀ b coin h, Owned env wallet s.node.chain b coin h →
    Awaits (Task.Writes env wallet h) (.mintFromBlock b.block) (Shows s coin.1 h) s.tasks
  used : ∀ b coin h, Owned env wallet s.node.chain b coin h →
    ∀ b' ∈ s.node.chain, h ∈ spentKeys env wallet b'.block →
      Awaits (Task.Writes env wallet h) (.spendFromBlock b'.block) (MarksUsed s h) s.tasks

omit [DecidableEq Coin] [DecidableEq Tag] [Ord Hash] [Std.TransOrd Hash] [Std.LawfulEqOrd Hash]
  [DecidableEq Hash] in
lemma Owned.mem_walletKeys {chain}
    (ho : Owned env wallet chain b coin h) : h ∈ walletKeys env wallet b.block :=
  Wallet.mem_walletKeys.mpr ⟨coin, ho.coin_mem, ho.key⟩

omit [Std.LawfulEqOrd Hash] [DecidableEq Hash] in
lemma Follows.initial (maxCoinInGroup startGroupSize : ℕ) :
    Follows env wallet cp (.initial maxCoinInGroup startGroupSize) where
  node := NodeInv.initial _ _
  indexed := nofun
  sound := trivial
  minted _ _ _ ho := absurd ho.block_mem not_mem_nil
  used _ _ _ ho := absurd ho.block_mem not_mem_nil

variable {task : Task Coin Tag Context} {stem isCheckWallet passes accepted : Bool}
  {tx : CTransaction} {r : WalletNode.Resurrection}

lemma Follows.runTask {tasks} (hs : Follows env wallet cp s) (htasks : s.tasks = task :: tasks) :
    Follows env wallet cp { s with sparkWallet := s.runTask env wallet task, tasks } := by
  refine ⟨hs.node, hs.indexed, hs.sound, fun b coin h ho => ?_, fun b coin h ho b' hb' hspent => ?_⟩
  · have hminted := hs.minted b coin h ho
    rw [htasks] at hminted
    apply hminted.pop
    · rintro hclean ⟨mint, hmint, hentry⟩
      rcases getElem?_runTask (s := s) hclean with heq | heq
      · exact ⟨mint, heq.trans hmint, hentry⟩
      · rw [hmint] at heq
        exact ⟨mint.marked true, heq, hentry⟩
    · rintro rfl -
      obtain ⟨hcaught, hsingle⟩ := hs.sound.of_mem ho.block_mem
      obtain ⟨coin', hcoin', hkey, mint, hmint, hentry⟩ := getElem?_updateMintState_of_mem
        s.node.sparkState (poolHasLTag env s.mempool) (w := s.sparkWallet) hcaught
        ⟨coin, ho.coin_mem, ho.key⟩
      have hsame := WalletEnv.sameTag_of_eq_some hkey ho.key
      rw [hsingle coin' hcoin' coin ho.coin_mem hsame] at hentry
      refine ⟨mint, ?_, hentry⟩
      simp only [WalletNode.runTask, containsBlock_of_mem (s := s) ho.block_mem, if_true]
      exact hmint
  · have hminted := hs.minted b coin h ho
    have hused := hs.used b coin h ho b' hb' hspent
    rw [htasks] at hminted hused
    apply hused.pop
    · rintro hclean ⟨mint, hmint, hmark⟩
      rcases getElem?_runTask (s := s) hclean with heq | heq
      · exact ⟨mint, heq.trans hmint, hmark⟩
      · rw [hmint] at heq
        exact ⟨mint.marked true, heq, rfl⟩
    · rintro rfl hclean
      -- no task that writes is left, so the coin is there already
      obtain ⟨mint, hmint, -⟩ := hminted.of_clean ⟨coin, ho.coin_mem, ho.key⟩
        (forall_mem_cons.mpr ⟨id, hclean⟩)
      refine ⟨mint.marked true, ?_, rfl⟩
      simp only [WalletNode.runTask, containsBlock_of_mem (s := s) hb', if_true]
      unfold spentKeys at hspent
      rw [getElem?_foldl_updateSpendState, if_pos hspent, hmint]
      rfl

/-- The pools and the caches of the node may change, and tasks are posted. -/
structure Posts (P : Task Coin Tag Context → Prop)
    (s s' : WalletNode Coin Tag Proof Context K Hash) : Prop where
  sparkWallet : s'.sparkWallet = s.sparkWallet
  node : ∃ checkedSpends batch, s'.node = s.node.withCaches checkedSpends batch
  tasks : ∃ new, s'.tasks = s.tasks ++ new ∧ ∀ task ∈ new, P task

section

variable {P Q : Task Coin Tag Context → Prop}

omit [DecidableEq Coin] [DecidableEq Tag] [Std.LawfulEqOrd Hash] [DecidableEq Hash] in
lemma Posts.refl (s : WalletNode Coin Tag Proof Context K Hash) : Posts P s s :=
  ⟨rfl, ⟨s.node.checkedSpends, s.node.batch, rfl⟩, [], (append_nil _).symm, nofun⟩

omit [DecidableEq Coin] [DecidableEq Tag] [Std.LawfulEqOrd Hash] [DecidableEq Hash] in
lemma Posts.trans (h₁ : Posts P s s₁) (h₂ : Posts P s₁ s') : Posts P s s' := by
  obtain ⟨hw₁, ⟨c₁, b₁, hn₁⟩, new₁, ht₁, hp₁⟩ := h₁
  obtain ⟨hw₂, ⟨c₂, b₂, hn₂⟩, new₂, ht₂, hp₂⟩ := h₂
  refine ⟨hw₂.trans hw₁, ⟨c₂, b₂, ?_⟩, new₁ ++ new₂, ?_, forall_mem_append.mpr ⟨hp₁, hp₂⟩⟩
  · rw [hn₂, hn₁]
    rfl
  · rw [ht₂, ht₁, append_assoc]

omit [DecidableEq Coin] [DecidableEq Tag] [Std.LawfulEqOrd Hash] [DecidableEq Hash] in
lemma Posts.mono (h : Posts P s s') (hPQ : ∀ task, P task → Q task) : Posts Q s s' := by
  obtain ⟨hw, hn, new, ht, hp⟩ := h
  exact ⟨hw, hn, new, ht, fun task htask => hPQ task (hp task htask)⟩

omit [DecidableEq Coin] [DecidableEq Tag] [Std.LawfulEqOrd Hash] [DecidableEq Hash] in
lemma posts_removeFromPools (removed) : Posts P s (s.removeFromPools removed) :=
  ⟨rfl, ⟨s.node.checkedSpends, s.node.batch, rfl⟩, [], (append_nil _).symm, nofun⟩

end

omit [DecidableEq Coin] [Std.LawfulEqOrd Hash] [DecidableEq Hash] in
lemma posts_acceptToMemoryPool
    (hs' : s.acceptToMemoryPool env wallet cp stem tx isCheckWallet passes = some (accepted, s')) :
    Posts (fun task => task ∈ poolTasks env wallet tx ∧ ∀ coin ∈ getSparkMintCoins env wallet tx,
        s.node.sparkState.mintedCoins coin.1 = none) s s' := by
  unfold WalletNode.acceptToMemoryPool at hs'
  generalize (if stem then s.stemTxPool else s.mempool) = pool at hs'
  split at hs'
  case isTrue =>
    cases hs'
    exact .refl s
  case isFalse hconflict =>
    have hnew : ∀ coin ∈ getSparkMintCoins env wallet tx,
        s.node.sparkState.mintedCoins coin.1 = none := by
      intro coin hcoin
      simp only [poolConflict, Bool.or_eq_true, not_or, Bool.not_eq_true,
        List.any_eq_false, Option.isSome_eq_false_iff, Option.isNone_iff_eq_none] at hconflict
      exact (hconflict.2 coin hcoin).1
    split at hs'
    case h_1 =>
      split at hs'
      · cases hs'
        exact ⟨rfl, ⟨_, _, rfl⟩, _, rfl, fun task htask => ⟨htask, hnew⟩⟩
      · cases hs'
        exact ⟨rfl, ⟨_, _, rfl⟩, [], (append_nil _).symm, fun _ htask => absurd htask not_mem_nil⟩
    case h_2 => cases hs'
    case h_3 =>
      cases hs'
      exact ⟨rfl, ⟨_, _, rfl⟩, [], (append_nil _).symm, fun _ htask => absurd htask not_mem_nil⟩

omit [DecidableEq Coin] [DecidableEq Tag] [Ord Hash] [Std.TransOrd Hash] [Std.LawfulEqOrd Hash]
  [DecidableEq Hash] in
lemma writes_of_mem_poolTasks (htask : task ∈ poolTasks env wallet tx)
    (hwrites : task.Writes env wallet h) :
    ∃ coin ∈ getSparkMintCoins env wallet tx, wallet.key coin = some h := by
  unfold poolTasks at htask
  rcases mem_append.mp htask with htask | htask
  · split at htask
    · rw [mem_singleton.mp htask] at hwrites
      cases hwrites
    · cases htask
  · split at htask
    · rw [mem_singleton.mp htask] at hwrites
      exact hwrites
    · cases htask

omit [Std.LawfulEqOrd Hash] [DecidableEq Hash] in
lemma Follows.posts (hs : Follows env wallet cp s)
    (hposts : Posts (fun task => ∀ b coin h, Owned env wallet s.node.chain b coin h →
      ¬ task.Writes env wallet h) s s') : Follows env wallet cp s' := by
  obtain ⟨hw, ⟨c, batch, hn⟩, new, ht, hclean⟩ := hposts
  have hchain : s'.node.chain = s.node.chain := by rw [hn]; rfl
  have hstate : s'.node.sparkState = s.node.sparkState := by rw [hn]; rfl
  refine ⟨?_, ?_, hchain ▸ hs.sound, ?_, ?_⟩
  · exact hs.node.of_eq hchain (by rw [hn]; rfl) hstate (by rw [hn]; rfl)
  · unfold TagsIndexed
    rw [hchain]
    exact hs.indexed
  · intro b coin h ho
    rw [hchain] at ho
    unfold Shows
    rw [ht, hw, hstate]
    exact (hs.minted b coin h ho).append fun task htask => hclean task htask b coin h ho
  · intro b coin h ho b' hb' hspent
    rw [hchain] at ho hb'
    unfold MarksUsed
    rw [ht, hw]
    exact (hs.used b coin h ho b' hb' hspent).append fun task htask =>
      hclean task htask b coin h ho

/-- The tag of a wallet coin of the transaction is, if at all, the one of the same coin in the
chain. -/
def TxSound (env : SparkEnv Coin Tag Proof) (wallet : WalletEnv Coin Tag Context K Hash)
    (tx : CTransaction) (chain : List (CBlockIndex Coin Tag)) : Prop :=
  ∀ coin ∈ getSparkMintCoins env wallet tx, ∀ b ∈ chain,
    ∀ coin' ∈ blockMintCoins env wallet b.block, wallet.SameTag coin' coin → coin'.1 = coin.1

instance (tx : CTransaction) (chain : List (CBlockIndex Coin Tag)) :
    Decidable (TxSound env wallet tx chain) :=
  inferInstanceAs (Decidable (∀ coin ∈ getSparkMintCoins env wallet tx, ∀ b ∈ chain,
    ∀ coin' ∈ blockMintCoins env wallet b.block, wallet.SameTag coin' coin → coin'.1 = coin.1))

omit [Std.LawfulEqOrd Hash] [DecidableEq Hash] in
lemma Follows.acceptToMemoryPool (hs : Follows env wallet cp s)
    (htx : TxSound env wallet tx s.node.chain)
    (hs' : s.acceptToMemoryPool env wallet cp stem tx isCheckWallet passes = some (accepted, s')) :
    Follows env wallet cp s' := by
  apply hs.posts
  refine (posts_acceptToMemoryPool hs').mono fun task htask b coin h ho hwrites => ?_
  obtain ⟨coin', hcoin', hkey⟩ := writes_of_mem_poolTasks htask.1 hwrites
  have hsame := htx coin' hcoin' b ho.block_mem coin ho.coin_mem
    (WalletEnv.sameTag_of_eq_some ho.key hkey)
  -- the coin is recorded, so the transaction is in conflict with the chain
  have hsome := hs.node.state.mintedCoins_isSome ho.block_mem ho.records
  rw [hsame, htask.2 coin' hcoin'] at hsome
  cases hsome

omit [Std.LawfulEqOrd Hash] [DecidableEq Hash] in
lemma Follows.of_node (hs : Follows env wallet cp s) {node}
    (hnode : NodeInv env cp node) (hchain : node.chain = s.node.chain)
    (hstate : node.sparkState = s.node.sparkState) : Follows env wallet cp { s with node } := by
  refine ⟨hnode, ?_, ?_, ?_, ?_⟩
  · unfold TagsIndexed
    rw [hchain]
    exact hs.indexed
  · rw [hchain]
    exact hs.sound
  · intro b coin h ho
    rw [hchain] at ho
    unfold Shows
    rw [hstate]
    exact hs.minted b coin h ho
  · intro b coin h ho b' hb' hspent
    rw [hchain] at ho hb'
    exact hs.used b coin h ho b' hb' hspent

omit [DecidableEq Coin] [DecidableEq Tag] in
lemma mem_blockTasks (htask : task ∈ blockTasks b) :
    task = .spendFromBlock b.block ∨ task = .mintFromBlock b.block := by
  unfold blockTasks at htask
  rcases mem_append.mp htask with htask | htask
  · split at htask
    · cases htask
    · exact .inl (mem_singleton.mp htask)
  · split at htask
    · cases htask
    · exact .inr (mem_singleton.mp htask)

omit [DecidableEq Coin] [DecidableEq Tag] in
lemma blockTasks_of_records {c} (hrecords : b.Records c) :
    (blockTasks b : List (Task Coin Tag Context)) =
      (if b.spentLTags.isEmpty then [] else [.spendFromBlock b.block]) ++
        [.mintFromBlock b.block] := by
  rw [blockTasks, hrecords.isEmpty_eq]
  rfl

omit [Std.LawfulEqOrd Hash] [DecidableEq Hash] in
/-- A new tip adds the tasks that its coins and spends need. -/
lemma Follows.grow (hs : Follows env wallet cp s) (hnode : NodeInv env cp s'.node)
    (hindexed : TagsIndexed env s'.node) (hchain : s'.node.chain = b' :: s.node.chain)
    (hsound : TagsSound env wallet b'.block s.node.chain) (hwallet : s'.sparkWallet = s.sparkWallet)
    (htasks : s'.tasks = s.tasks ++ blockTasks b') : Follows env wallet cp s' := by
  have hstate := hnode.state
  rw [hchain] at hstate
  have hold : ∀ b coin h, Owned env wallet s'.node.chain b coin h → b ∈ s.node.chain →
      Owned env wallet s.node.chain b coin h :=
    fun b coin h ho hb => ⟨hb, ho.coin_mem, ho.records, ho.key⟩
  -- the new tasks write no entry of a coin in the chain below
  have hmint : ∀ b coin h, Owned env wallet s.node.chain b coin h →
      ¬ Task.Writes env wallet h (.mintFromBlock b'.block) := by
    intro b coin h ho hwrites
    exact (hsound.fresh h (mem_walletKeys.mpr hwrites) b ho.block_mem).1 ho.mem_walletKeys
  have hclean : ∀ b coin h, Owned env wallet s.node.chain b coin h →
      ∀ task ∈ blockTasks b', ¬ task.Writes env wallet h := by
    intro b coin h ho task htask
    rcases mem_blockTasks htask with rfl | rfl
    · exact id
    · exact hmint b coin h ho
  refine ⟨hnode, hindexed, ?_, fun b coin h ho => ?_, fun b coin h ho c hc hspent => ?_⟩
  · rw [hchain]
    exact ⟨hsound, hs.sound⟩
  · rw [htasks]
    rcases mem_cons.mp (hchain ▸ ho.block_mem) with rfl | hb
    · -- the task of the block is the last one
      rw [blockTasks_of_records ho.records, ← append_assoc]
      exact Awaits.posted _ nofun
    · have ho' := hold b coin h ho hb
      refine ((hs.minted b coin h ho').append (hclean b coin h ho')).mono ?_
      rintro ⟨mint, hentry, hcoin, hrecord⟩
      refine ⟨mint, ?_, hcoin, ?_⟩
      · rw [hwallet]
        exact hentry
      · rw [hrecord, hs.node.state.record_eq hstate hb ho.records]
  · rw [htasks]
    rcases mem_cons.mp (hchain ▸ ho.block_mem) with rfl | hb
    · -- a coin of the block is not spent yet
      have hkeys := ho.mem_walletKeys
      rcases mem_cons.mp (hchain ▸ hc) with rfl | hc
      · exact absurd hspent (hsound.unspent h hkeys)
      · exact absurd hspent (hsound.fresh h hkeys c hc).2
    · have ho' := hold b coin h ho hb
      rcases mem_cons.mp (hchain ▸ hc) with rfl | hc
      · have htags : c.spentLTags.isEmpty = false := by
          rw [← isEmpty_map (f := Prod.fst), hindexed c (hchain ▸ mem_cons_self)]
          rw [isEmpty_eq_false_iff]
          rintro hnil
          unfold spentKeys at hspent
          rw [hnil] at hspent
          cases hspent
        rw [blockTasks, htags]
        refine Awaits.posted _ fun task htask => ?_
        exact hclean b coin h ho' task (mem_append_right _ htask)
      · refine ((hs.used b coin h ho' c hc hspent).append (hclean b coin h ho')).mono ?_
        rintro ⟨mint, hentry, hmark⟩
        exact ⟨mint, hwallet ▸ hentry, hmark⟩

lemma chain_of_connectTip {block} {other} {n n'} {index} (hn : NodeInv env cp n)
    (hentry : n.indexOf cp block = some index) (hstep : TipStep env cp other n block index n') :
    n'.chain = n.chain ∨ ∃ b, n'.chain = b :: n.chain ∧ b.block = block := by
  cases hstep with
  | refused => exact .inl rfl
  | failed => exact .inl rfl
  | genesis hchain =>
    obtain ⟨-, rfl⟩ := Node.indexOf_nil hchain hentry
    exact .inr ⟨_, by rw [hchain], rfl⟩
  | connected hnext _ n₁ b c =>
    have hblock := (c.result hn.namesInv hnext.recordable).block_eq
    exact .inr ⟨b, rfl, hblock.trans hnext.block_eq⟩

omit [Std.LawfulEqOrd Hash] [DecidableEq Hash] in
lemma Follows.connectTip {block} {other} (hs : Follows env wallet cp s)
    (hsound : s'.node.chain.length ≠ s.node.chain.length →
      TagsSound env wallet block s.node.chain)
    (hs' : s.connectTip env wallet cp block other = some s') : Follows env wallet cp s' := by
  obtain ⟨node, hconnect, hs'⟩ := bind_eq_some_iff.mp hs'
  obtain ⟨index, hentry, htip⟩ := hs.node.connectTip_cases hconnect
  have hnode := htip.nodeInv hs.node hentry
  have hindexed := htip.tagsIndexed hs.node hs.indexed hentry
  rcases chain_of_connectTip hs.node hentry htip with hchain | ⟨b, hchain, rfl⟩
  · rw [hchain, if_pos rfl] at hs'
    cases hs'
    exact hs.of_node hnode hchain (htip.sparkState_of_chain_eq hchain)
  · have hgrown : node.chain.length ≠ s.node.chain.length := by
      rw [hchain, length_cons]
      exact Nat.succ_ne_self _
    rw [if_neg hgrown] at hs'
    cases hs'
    refine hs.grow hnode hindexed hchain (hsound hgrown) rfl ?_
    rw [hchain]
    rfl

/-- The tasks and entries behind a block that leaves the chain: new tasks are about coins of the
block, entries of other coins stay, and lose their mark only if the block spends them. -/
structure RolledBack (env : SparkEnv Coin Tag Proof) (wallet : WalletEnv Coin Tag Context K Hash)
    (block : CBlock) (s s' : WalletNode Coin Tag Proof Context K Hash) : Prop where
  tasks : ∃ new, s'.tasks = s.tasks ++ new ∧
    ∀ task ∈ new, ∀ h, task.Writes env wallet h → h ∈ walletKeys env wallet block
  entries : ∀ h, h ∉ walletKeys env wallet block →
    ∀ mint, s.sparkWallet.coinMeta[h]? = some mint → ∃ isUsed,
      s'.sparkWallet.coinMeta[h]? = some (mint.marked isUsed) ∧
        (h ∉ spentKeys env wallet block → isUsed = mint.isUsed)

omit [Std.LawfulEqOrd Hash] [DecidableEq Hash] in
lemma Follows.shrink (hs : Follows env wallet cp s) (hnode : NodeInv env cp s'.node)
    (hchain : s.node.chain = b' :: s'.node.chain)
    (hrolled : RolledBack env wallet b'.block s s') : Follows env wallet cp s' := by
  have hsound := hs.sound
  have hstate := hs.node.state
  rw [hchain] at hsound hstate
  have hold : ∀ b coin h, Owned env wallet s'.node.chain b coin h →
      Owned env wallet s.node.chain b coin h :=
    fun b coin h ho => ⟨hchain ▸ mem_cons_of_mem _ ho.block_mem, ho.coin_mem, ho.records, ho.key⟩
  have hother : ∀ b coin h, Owned env wallet s'.node.chain b coin h →
      h ∉ walletKeys env wallet b'.block :=
    fun b coin h ho hkeys => (hsound.1.fresh h hkeys b ho.block_mem).1 ho.mem_walletKeys
  obtain ⟨new, htasks, hnew⟩ := hrolled.tasks
  have hclean : ∀ b coin h, Owned env wallet s'.node.chain b coin h →
      ∀ task ∈ new, ¬ task.Writes env wallet h :=
    fun b coin h ho task htask hwrites => hother b coin h ho (hnew task htask h hwrites)
  refine ⟨hnode, ?_, hsound.2, fun b coin h ho => ?_, fun b coin h ho c hc hspent => ?_⟩
  · exact fun b hb => hs.indexed b (hchain ▸ mem_cons_of_mem _ hb)
  · rw [htasks]
    refine ((hs.minted b coin h (hold b coin h ho)).append (hclean b coin h ho)).mono ?_
    rintro ⟨mint, hentry, hcoin, hrecord⟩
    obtain ⟨isUsed, hentry', -⟩ := hrolled.entries h (hother b coin h ho) mint hentry
    refine ⟨mint.marked isUsed, hentry', hcoin, ?_⟩
    rw [← hnode.state.record_eq hstate ho.block_mem ho.records]
    exact hrecord
  · rw [htasks]
    have hmem : c ∈ s.node.chain := hchain ▸ mem_cons_of_mem _ hc
    refine ((hs.used b coin h (hold b coin h ho) c hmem hspent).append (hclean b coin h ho)).mono ?_
    rintro ⟨mint, hentry, hmark⟩
    obtain ⟨isUsed, hentry', hkept⟩ := hrolled.entries h (hother b coin h ho) mint hentry
    -- the coin is spent below, so the block does not spend it again
    have honce : h ∉ spentKeys env wallet b'.block :=
      fun htip => hsound.1.once h htip b ho.block_mem ho.mem_walletKeys c hc hspent
    exact ⟨_, hentry', (hkept honce).trans hmark⟩

section

variable {block : CBlock}

omit [DecidableEq Coin] [DecidableEq Tag] [Std.LawfulEqOrd Hash] [DecidableEq Hash] in
lemma RolledBack.trans (h₁ : RolledBack env wallet block s s₁)
    (h₂ : RolledBack env wallet block s₁ s') : RolledBack env wallet block s s' := by
  obtain ⟨⟨new₁, ht₁, hw₁⟩, he₁⟩ := h₁
  obtain ⟨⟨new₂, ht₂, hw₂⟩, he₂⟩ := h₂
  refine ⟨⟨new₁ ++ new₂, ?_, forall_mem_append.mpr ⟨hw₁, hw₂⟩⟩, ?_⟩
  · rw [ht₂, ht₁, append_assoc]
  · intro h hkeys mint hentry
    obtain ⟨isUsed₁, hentry₁, hkept₁⟩ := he₁ h hkeys mint hentry
    obtain ⟨isUsed₂, hentry₂, hkept₂⟩ := he₂ h hkeys _ hentry₁
    exact ⟨isUsed₂, hentry₂, fun hspent => (hkept₂ hspent).trans (hkept₁ hspent)⟩

omit [DecidableEq Coin] [DecidableEq Tag] [Std.LawfulEqOrd Hash] [DecidableEq Hash] in
lemma RolledBack.of_posts (hposts : Posts (fun task => ∃ tx ∈ block.vtx,
    task ∈ poolTasks env wallet tx) s s') : RolledBack env wallet block s s' := by
  obtain ⟨hw, -, new, htasks, hnew⟩ := hposts
  refine ⟨⟨new, htasks, ?_⟩, ?_⟩
  · intro task htask h hwrites
    obtain ⟨tx, htx, hpool⟩ := hnew task htask
    obtain ⟨coin, hcoin, hkey⟩ := writes_of_mem_poolTasks hpool hwrites
    exact mem_walletKeys.mpr ⟨coin, mem_flatMap.mpr ⟨tx, htx, hcoin⟩, hkey⟩
  · intro h hkeys mint hentry
    refine ⟨mint.isUsed, ?_, fun _ => rfl⟩
    rw [hw]
    exact hentry

omit [DecidableEq Coin] [Std.LawfulEqOrd Hash] [DecidableEq Hash] in
lemma posts_resurrect (hs' : resurrect env wallet cp r s tx = some s') :
    Posts (fun task => task ∈ poolTasks env wallet tx) s s' := by
  unfold resurrect at hs'
  split at hs'
  case isTrue =>
    cases hs'
    exact posts_removeFromPools _
  case isFalse =>
    obtain ⟨⟨_, s₁⟩, hstem, hs'⟩ := bind_eq_some_iff.mp hs'
    obtain ⟨⟨accepted, s₂⟩, hpool, hs'⟩ := bind_eq_some_iff.mp hs'
    have hposts := ((posts_acceptToMemoryPool hstem).mono fun _ => And.left).trans
      ((posts_acceptToMemoryPool hpool).mono fun _ => And.left)
    cases hs'
    split
    · exact hposts
    · exact hposts.trans (posts_removeFromPools _)

omit [DecidableEq Coin] [DecidableEq Tag] in
lemma rolledBack_rollBack (htx : tx ∈ block.vtx) (hs' : rollBack env wallet s tx = some s') :
    RolledBack env wallet block s s' ∧ s'.node = s.node := by
  unfold rollBack at hs'
  dsimp only at hs'
  split at hs'
  case isTrue =>
    cases hs'
    exact ⟨.of_posts (.refl s), rfl⟩
  case isFalse hspark =>
    split at hs'
    case isTrue => cases hs'
    case isFalse =>
      cases hs'
      refine ⟨⟨⟨[], (append_nil _).symm, nofun⟩, ?_⟩, rfl⟩
      intro h hkeys mint hentry
      have hcoins : ∀ coin ∈ getSparkMintCoins env wallet tx, wallet.key coin ≠ some h :=
        fun coin hcoin hkey => hkeys (mem_walletKeys.mpr
          ⟨coin, mem_flatMap.mpr ⟨tx, htx, hcoin⟩, hkey⟩)
      dsimp only
      rw [getElem?_removeSparkMints hcoins, getElem?_removeSparkSpends, hentry]
      split
      case isTrue htags =>
        refine ⟨false, rfl, fun hspent => absurd ?_ hspent⟩
        obtain ⟨lTag, hlTag, rfl⟩ := mem_map.mp htags
        exact mem_map_of_mem (mem_flatMap.mpr ⟨tx, htx, hlTag⟩)
      case isFalse => exact ⟨mint.isUsed, rfl, fun _ => rfl⟩

omit [DecidableEq Coin] [DecidableEq Tag] in
lemma rolledBack_foldlM {vtx : List CTransaction} (hvtx : ∀ tx ∈ vtx, tx ∈ block.vtx)
    (hs' : vtx.foldlM (rollBack env wallet) s = some s') :
    RolledBack env wallet block s s' ∧ s'.node = s.node := by
  have hreach : Reach (rollBack env wallet) (fun _ tx => tx ∈ block.vtx) s s' :=
    Reach.of_foldlM .init (fun tx htx _ => hvtx tx htx) hs'
  have hrefl : RolledBack env wallet block s s ∧ s.node = s.node := ⟨.of_posts (.refl s), rfl⟩
  apply hreach.invariant (I := fun s' => RolledBack env wallet block s s' ∧ s'.node = s.node) hrefl
  rintro s₁ tx s₂ ⟨hrolled, hnode⟩ htx hs₂
  obtain ⟨hrolled', hnode'⟩ := rolledBack_rollBack htx hs₂
  exact ⟨hrolled.trans hrolled', hnode'.trans hnode⟩

omit [DecidableEq Coin] [Std.LawfulEqOrd Hash] [DecidableEq Hash] in
lemma posts_foldlM_resurrect (hs' : block.vtx.foldlM (resurrect env wallet cp r) s = some s') :
    Posts (fun task => ∃ tx ∈ block.vtx, task ∈ poolTasks env wallet tx) s s' := by
  have hreach : Reach (resurrect env wallet cp r) (fun _ tx => tx ∈ block.vtx) s s' :=
    Reach.of_foldlM .init (fun tx htx _ => htx) hs'
  refine hreach.invariant (.refl s) fun s₁ tx s₂ hposts htx hs₂ => ?_
  exact hposts.trans ((posts_resurrect hs₂).mono fun task htask => ⟨tx, htx, htask⟩)

end

omit [DecidableEq Coin] [Std.LawfulEqOrd Hash] [DecidableEq Hash] in
lemma posts_takeBack {node : Node Coin Tag Proof} {block}
    (hs' : s.takeBack env wallet cp r node block = some s') :
    Posts (fun task => ∃ tx ∈ block.vtx, task ∈ poolTasks env wallet tx)
      { s with node } s' := by
  unfold takeBack at hs'
  split at hs'
  case isTrue =>
    cases hs'
    exact .refl _
  case isFalse =>
    obtain ⟨s₁, hs₁, hs'⟩ := bind_eq_some_iff.mp hs'
    obtain ⟨hw, ⟨c, batch, hn⟩, hposted⟩ := posts_foldlM_resurrect hs₁
    cases hs'
    refine ⟨hw, ⟨c, batch, ?_⟩, hposted⟩
    change { s₁.node with chain := node.chain } = _
    rw [hn]
    rfl

lemma Follows.disconnectTip {batching : Bool} (hs : Follows env wallet cp s)
    (hs' : s.disconnectTip env wallet cp batching r = some s') : Follows env wallet cp s' := by
  obtain ⟨index, hindex, hs'⟩ := bind_eq_some_iff.mp hs'
  obtain ⟨node, hnode, hs'⟩ := bind_eq_some_iff.mp hs'
  obtain ⟨s₁, hs₁, hs'⟩ := bind_eq_some_iff.mp hs'
  have hinv := hs.node.disconnectTip hnode
  obtain ⟨b, p, rest, _, _, hchain, -, hnode_eq⟩ := disconnectTip_eq_some hnode
  obtain rfl : b = index := by
    rw [hchain] at hindex
    exact Option.some.inj hindex
  have hrest : node.chain = p :: rest := by rw [hnode_eq]
  have hposts := posts_takeBack hs₁
  obtain ⟨hrolled, hsame⟩ := rolledBack_foldlM (fun tx htx => htx) hs'
  obtain ⟨c, batch, hn⟩ := hposts.node
  have hall := (RolledBack.of_posts hposts).trans hrolled
  have hbelow : s'.node.chain = p :: rest := by
    rw [hsame, hn, ← hrest]
    rfl
  refine hs.shrink ?_ (hchain.trans (by rw [hbelow])) ⟨hall.tasks, hall.entries⟩
  rw [hsame, hn]
  exact hinv.of_eq rfl rfl rfl rfl

/-- The linking tags of the wallet's coins mean what they should in the blocks that become the tip
and in what is offered to the mempool. -/
def Regular (env : SparkEnv Coin Tag Proof) (wallet : WalletEnv Coin Tag Context K Hash)
    (cp : ConsensusParams) (s : WalletNode Coin Tag Proof Context K Hash) :
    WalletNode.Event → Prop
  | .connectTip block other => (s.connectTip env wallet cp block other).any (fun s' =>
      s'.node.chain.length != s.node.chain.length) = true →
      TagsSound env wallet block s.node.chain
  | .acceptToMemoryPool _ tx _ _ => TxSound env wallet tx s.node.chain
  | .disconnectTip _ _ | .removeFromPools _ | .runTask => True

instance : (event : WalletNode.Event) → Decidable (Regular env wallet cp s event)
  | .connectTip block other => inferInstanceAs (Decidable
      ((s.connectTip env wallet cp block other).any (fun s' =>
        s'.node.chain.length != s.node.chain.length) = true →
        TagsSound env wallet block s.node.chain))
  | .acceptToMemoryPool _ tx _ _ => inferInstanceAs (Decidable (TxSound env wallet tx s.node.chain))
  | .disconnectTip _ _ | .removeFromPools _ | .runTask => isTrue trivial

/-- Every event that meets the condition keeps the wallet up to date, but for the tasks that are
left. -/
lemma Follows.step (hs : Follows env wallet cp s) (event) (hregular : Regular env wallet cp s event)
    (hs' : s.step env wallet cp event = some s') : Follows env wallet cp s' := by
  cases event with
  | connectTip block other =>
    refine hs.connectTip (fun hgrown => hregular ?_) hs'
    exact (Option.any_eq_true ..).mpr ⟨s', hs', bne_iff_ne.mpr hgrown⟩
  | disconnectTip batching r => exact hs.disconnectTip hs'
  | acceptToMemoryPool stem tx isCheckWallet passes =>
    obtain ⟨⟨accepted, s₁⟩, haccept, rfl⟩ := map_eq_some_iff.mp hs'
    exact hs.acceptToMemoryPool hregular haccept
  | removeFromPools removed =>
    cases hs'
    exact hs.posts (posts_removeFromPools removed)
  | runTask =>
    simp only [WalletNode.step] at hs'
    split at hs'
    case h_1 => cases hs'
    case h_2 task tasks htasks =>
      cases hs'
      exact hs.runTask htasks

/-- Whenever no task is left, the wallet has every coin that it owns in the active chain, with the
height and the group that the Spark state has recorded, and has marked it as used if its linking
tag is used in the chain. -/
theorem wallet_follows_chain {maxCoinInGroup startGroupSize : ℕ}
    (hreach : Reach (WalletNode.step env wallet cp) (Regular env wallet cp)
      (.initial maxCoinInGroup startGroupSize) s) (hidle : s.tasks = []) :
    ∀ b ∈ s.node.chain, ∀ tx ∈ b.block.vtx, ∀ coin ∈ getSparkMintCoins env wallet tx,
      b.Records coin.1 → ∀ data, wallet.recover coin = .ok data →
        ∃ mint, s.sparkWallet.coinMeta[wallet.getLTagHash data.T]? = some mint ∧
          mint.coin.1 = coin.1 ∧
          (mint.nHeight, mint.nId) = s.node.sparkState.getMintedCoinHeightAndId coin.1 ∧
          (data.T ∈ usedTags env s.node.chain → mint.isUsed = true) := by
  have hs : Follows env wallet cp s :=
    hreach.invariant (.initial _ _) fun _ event _ hs hregular hs' => hs.step event hregular hs'
  intro b hb tx htx coin hcoin hrecords data hdata
  have ho : Owned env wallet s.node.chain b coin (wallet.getLTagHash data.T) := by
    refine ⟨hb, mem_flatMap.mpr ⟨tx, htx, hcoin⟩, hrecords, ?_⟩
    rw [WalletEnv.key, hdata]
    rfl
  have hminted := hs.minted b coin _ ho
  rw [hidle] at hminted
  obtain ⟨mint, hentry, hmint⟩ := hminted.nil
  refine ⟨mint, hentry, hmint.1, hmint.2, fun htag => ?_⟩
  obtain ⟨b', hb', htag⟩ := mem_flatMap.mp htag
  have hused := hs.used b coin _ ho b' hb' (mem_map_of_mem htag)
  rw [hidle] at hused
  obtain ⟨mint', hentry', hmark⟩ := hused.nil
  obtain rfl := Option.some.inj (hentry.symm.trans hentry')
  exact hmark

def Toy.walletEnv : WalletEnv Toy.Coin UInt8 Unit ℕ ℕ where
  getSerialContext _ := ()
  recover coin :=
    if coin.1.tag < 10 then .ok ⟨coin.1.tag, 0, coin.1.tag.toNat⟩ else .error .runtimeError
  getLTagHash lTag := lTag.toNat
  hashes := ⟨fun coin => (Toy.env.coinHash coin.1).toNat, id, fun _ => false⟩

def Toy.minted (coin : Toy.Coin) (b : CBlockIndex Toy.Coin UInt8) : Bool :=
  b.sparkMintedCoins == (∅ : Std.ExtTreeMap ℤ (List Toy.Coin)).insert 1 [coin]

/-- A coin is minted and spent. The spend is in the mempool before, and the worker runs the
tasks late. -/
def Toy.mintAndSpend : List WalletNode.Event :=
  [.connectTip (Toy.block 0 []) {}, .connectTip (Toy.block 1 [Toy.mintTx 1 [(7, 50)]]) {},
    .acceptToMemoryPool false (Toy.spendSeven 2 1 1 20) false true,
    .connectTip (Toy.block 2 [Toy.spendSeven 2 1 1 20]) {},
    .runTask, .runTask, .runTask, .runTask, .runTask]

theorem wallet_follows_chain_mintAndSpend : ∃ s : WalletNode Toy.Coin UInt8 Toy.Coin Unit ℕ ℕ,
      Reach (WalletNode.step Toy.env Toy.walletEnv (Toy.params 1))
        (Regular Toy.env Toy.walletEnv (Toy.params 1)) (.initial 3 1) s ∧ s.tasks = [] ∧
      ∃ mint, s.sparkWallet.coinMeta[7]? = some mint ∧
        (mint.nHeight, mint.nId) = s.node.sparkState.getMintedCoinHeightAndId ⟨0, 7, 50⟩ ∧
        mint.isUsed = true := by
  have hrun : (Toy.mintAndSpend.foldlM (fun s event =>
        if Regular Toy.env Toy.walletEnv (Toy.params 1) s event then
        s.step Toy.env Toy.walletEnv (Toy.params 1) event else none)
      (initial 3 1 : WalletNode Toy.Coin UInt8 Toy.Coin Unit ℕ ℕ)).any (fun s =>
        s.tasks.isEmpty && decide (7 ∈ usedTags Toy.env s.node.chain) &&
        s.node.chain.any fun b => decide (b.block = Toy.block 1 [Toy.mintTx 1 [(7, 50)]]) &&
          Toy.minted ⟨0, 7, 50⟩ b) = true := by
    decide +kernel
  obtain ⟨s, hs, htest⟩ := (Option.any_eq_true _ _).mp hrun
  simp only [Bool.and_eq_true, decide_eq_true_eq, List.isEmpty_iff, List.any_eq_true] at htest
  obtain ⟨⟨hidle, htag⟩, b, hb, hblock, hminted⟩ := htest
  have hreach := Reach.of_foldlM_guarded .init hs
  have hrecords : b.Records (⟨0, 7, 50⟩ : Toy.Coin) :=
    ⟨1, _, ⟨cons_ne_nil _ _, eq_of_beq hminted⟩, mem_cons_self⟩
  obtain ⟨mint, hentry, -, hrecord, hused⟩ := wallet_follows_chain hreach hidle b hb
    (Toy.mintTx 1 [(7, 50)]) (by rw [hblock]; exact mem_cons_self) (⟨0, 7, 50⟩, ())
    (by decide +kernel) hrecords ⟨7, 0, 7⟩ rfl
  exact ⟨s, hreach, hidle, mint, hentry, hrecord, hused htag⟩

/-- A mint with a second output for a coin that has the same tag. The state does not record the
second coin, since the transaction is not a spend. -/
def Toy.twinMint : CTransaction :=
  { Toy.mintTx 1 [(7, 50)] with
    vout := [⟨50, [OP_SPARKMINT, COIN_TYPE_MINT, 7, 50]⟩,
      ⟨0, [OP_SPARKSMINT, COIN_TYPE_SPEND, 7, 9]⟩] }

/-- The wallet takes the second coin for the first, and the height and the group of the first
coin are lost. -/
theorem twinMint_loses_coin : ∃ s : WalletNode Toy.Coin UInt8 Toy.Coin Unit ℕ ℕ,
      Reach (WalletNode.step Toy.env Toy.walletEnv (Toy.params 1)) (fun _ _ => True)
        (.initial 3 1) s ∧ s.tasks = [] ∧
      s.node.chain.map CBlockIndex.block = [Toy.block 1 [Toy.twinMint], Toy.block 0 []] ∧
      s.node.sparkState.getMintedCoinHeightAndId ⟨0, 7, 50⟩ = (1, 1) ∧
      (s.sparkWallet.coinMeta[7]?).map (fun mint => (mint.coin.1, mint.nHeight, mint.nId)) =
        some (⟨1, 7, 9⟩, -1, -1) := by
  have hrun : ([.connectTip (Toy.block 0 []) {}, .connectTip (Toy.block 1 [Toy.twinMint]) {},
      .runTask].foldlM (WalletNode.step Toy.env Toy.walletEnv (Toy.params 1))
      (initial 3 1 : WalletNode Toy.Coin UInt8 Toy.Coin Unit ℕ ℕ)).any (fun s =>
        s.tasks.isEmpty && decide (
          s.node.chain.map CBlockIndex.block = [Toy.block 1 [Toy.twinMint], Toy.block 0 []] ∧
          s.node.sparkState.getMintedCoinHeightAndId ⟨0, 7, 50⟩ = (1, 1) ∧
          (s.sparkWallet.coinMeta[7]?).map (fun mint => (mint.coin.1, mint.nHeight, mint.nId)) =
            some (⟨1, 7, 9⟩, -1, -1))) = true := by
    decide +kernel
  obtain ⟨s, hs, htest⟩ := (Option.any_eq_true _ _).mp hrun
  simp only [Bool.and_eq_true, decide_eq_true_eq, List.isEmpty_iff] at htest
  exact ⟨s, Reach.of_foldlM .init (fun _ _ _ => trivial) hs, htest⟩

end Firo.Wallet
