import Firo.Lib.TaskQueue
import Firo.Wallet.ChainSync
import Firo.Wallet.LookupIndexes

/-! When the worker has nothing left to do, the wallet has every coin that it owns in the active
chain, with the height and the group of the Spark state, and marks the spent ones as used. This
needs that different coins of the wallet have different linking tags. -/
namespace Firo.Spark

variable {Coin Tag : Type} [DecidableEq Coin] [DecidableEq Tag]

def CBlockIndex.Records (b : CBlockIndex Coin Tag) (coin : Coin) : Prop :=
  ∃ id coins, b.HasMints id coins ∧ coin ∈ coins

variable {s s' : CSparkState Coin Tag} {chain : List (CBlockIndex Coin Tag)}
  {b b' : CBlockIndex Coin Tag} {coin : Coin}

omit [DecidableEq Coin] [DecidableEq Tag] in
lemma CBlockIndex.Records.isEmpty_eq (h : b.Records coin) : b.sparkMintedCoins.isEmpty = false := by
  obtain ⟨id, coins, hb, -⟩ := h
  rw [Bool.eq_false_iff]
  exact fun hempty => hb.not_noMints (Std.ExtTreeMap.isEmpty_iff.mp hempty)

lemma build_mintedCoins_eq (h : WellPlaced chain) (m g m' g' : Nat) :
    (buildSparkStateFromIndex m g chain : CSparkState Coin Tag).mintedCoins =
      (buildSparkStateFromIndex m' g' chain).mintedCoins := by
  induction chain with
  | nil => rfl
  | cons b chain ih =>
    funext c
    rw [buildSparkStateFromIndex, buildSparkStateFromIndex]
    rcases h.2.2.2 with hb | ⟨id, coins, hb, -⟩
    · rw [CSparkState.addBlock_of_noMints _ hb, CSparkState.addBlock_of_noMints _ hb,
        CSparkState.addSpends_mintedCoins, CSparkState.addSpends_mintedCoins, ih h.1]
    · rw [CSparkState.addBlock_mintedCoins _ hb, CSparkState.addBlock_mintedCoins _ hb, ih h.1]

lemma StateInv.mintedCoins_isSome (h : StateInv s chain) (hb : b ∈ chain)
    (hcoin : b.Records coin) : (s.mintedCoins coin).isSome = true := by
  rw [h.agrees.minted_eq]
  exact (build_mintedCoins_isSome h.wellPlaced).mpr ⟨b, hb, hcoin⟩

lemma StateInv.record_eq (h : StateInv s chain) (h' : StateInv s' (b' :: chain)) (hb : b ∈ chain)
    (hcoin : b.Records coin) :
    s'.getMintedCoinHeightAndId coin = s.getMintedCoinHeightAndId coin := by
  have hsome := h.mintedCoins_isSome hb hcoin
  have hminted : s'.mintedCoins coin = s.mintedCoins coin := by
    rw [h.agrees.minted_eq] at hsome ⊢
    rw [h'.agrees.minted_eq]
    unfold CSparkState.replay at hsome ⊢
    rw [build_mintedCoins_eq h.wellPlaced _ _ s'.maxCoinInGroup s'.startGroupSize] at hsome ⊢
    rw [buildSparkStateFromIndex]
    rcases h'.wellPlaced.2.2.2 with hb' | ⟨id, coins, hb', -⟩
    · rw [CSparkState.addBlock_of_noMints _ hb', CSparkState.addSpends_mintedCoins]
    · rw [CSparkState.addBlock_mintedCoins _ hb', Option.or_of_isSome hsome]
  rw [CSparkState.getMintedCoinHeightAndId, CSparkState.getMintedCoinHeightAndId, hminted]

end Firo.Spark

namespace Firo.Wallet

open Firo.Lib Firo.Spark List WalletNode CSparkMintMeta

variable {Coin Tag Proof Context K Hash : Type} [DecidableEq Coin] [DecidableEq Tag]
  [Ord Hash] [Std.TransOrd Hash] [Std.LawfulEqOrd Hash] [DecidableEq Hash]
  {env : SparkEnv Coin Tag Proof} {wallet : WalletEnv Coin Tag Context K Hash}

section

variable {w : CSparkWallet (Coin × Context) K Hash} {h : Hash} {coins : List (Coin × Context)}

def CSparkMintMeta.marked (isUsed : Bool) (mint : CSparkMintMeta (Coin × Context) K) :
    CSparkMintMeta (Coin × Context) K :=
  { mint with isUsed }

def mark (wallet : WalletEnv Coin Tag Context K Hash) (isUsed : Bool)
    (w : CSparkWallet (Coin × Context) K Hash) (lTagHash : Hash) :
    CSparkWallet (Coin × Context) K Hash :=
  match w.coinMeta[lTagHash]? with
  | some mint => w.addOrUpdateMint wallet.hashes (mint.marked isUsed) lTagHash
  | none => w

omit [DecidableEq Coin] [DecidableEq Tag] in
lemma getElem?_mark (isUsed : Bool) (lTagHash) : (mark wallet isUsed w lTagHash).coinMeta[h]? =
      if lTagHash = h then (w.coinMeta[h]?).map (marked isUsed)
      else w.coinMeta[h]? := by
  unfold mark
  cases hentry : w.coinMeta[lTagHash]? with
  | none =>
    dsimp only
    split
    case isTrue heq => rw [← heq, hentry, Option.map_none]
    case isFalse => rfl
  | some mint =>
    dsimp only
    rw [WalletCall.getElem?_addOrUpdateMint]
    split
    case isTrue heq =>
      rw [← heq, hentry]
      rfl
    case isFalse => rfl

omit [DecidableEq Coin] [DecidableEq Tag] in
lemma getElem?_foldl_mark (wallet : WalletEnv Coin Tag Context K Hash) (isUsed : Bool)
    (lTagHashes : List Hash) : (lTagHashes.foldl (mark wallet isUsed) w).coinMeta[h]? =
      if h ∈ lTagHashes then (w.coinMeta[h]?).map (marked isUsed)
      else w.coinMeta[h]? := by
  induction lTagHashes generalizing w with
  | nil => rfl
  | cons lTagHash lTagHashes ih =>
    rw [foldl_cons, ih, getElem?_mark]
    by_cases heq : lTagHash = h
    · rw [if_pos heq, if_pos (mem_cons.mpr (.inl heq.symm)), Option.map_map]
      split
      · rfl
      · rfl
    · rw [if_neg heq]
      refine if_congr ?_ rfl rfl
      rw [mem_cons, or_iff_right (Ne.symm heq)]

omit [DecidableEq Coin] [DecidableEq Tag] in
lemma getElem?_foldl_updateSpendState (lTags : List Tag) :
    (lTags.foldl (updateSpendState wallet) w).coinMeta[h]? =
      if h ∈ lTags.map wallet.getLTagHash then
        (w.coinMeta[h]?).map (marked true)
      else w.coinMeta[h]? := by
  rw [← getElem?_foldl_mark wallet true, foldl_map]
  rfl

omit [DecidableEq Coin] [DecidableEq Tag] in
lemma getElem?_removeSparkSpends (lTagHashes : List Hash) :
    (w.removeSparkSpends wallet.hashes lTagHashes).coinMeta[h]? =
      if h ∈ lTagHashes then (w.coinMeta[h]?).map (marked false)
      else w.coinMeta[h]? := by
  have hfold : w.removeSparkSpends wallet.hashes lTagHashes =
      lTagHashes.foldl (mark wallet false) w := by
    unfold CSparkWallet.removeSparkSpends
    congr 1
    funext w lTagHash
    unfold mark
    cases w.coinMeta[lTagHash]? with
    | none => rfl
    | some mint => rfl
  rw [hfold, getElem?_foldl_mark]

omit [DecidableEq Coin] [DecidableEq Tag] in
lemma getElem?_removeSparkMints (hcoins : ∀ coin ∈ coins, wallet.key coin ≠ some h) :
    (w.removeSparkMints wallet.hashes wallet.key coins).coinMeta[h]? = w.coinMeta[h]? := by
  induction coins generalizing w with
  | nil => rfl
  | cons coin coins ih =>
    rw [forall_mem_cons] at hcoins
    rw [CSparkWallet.removeSparkMints, foldl_cons]
    refine (ih hcoins.2).trans ?_
    split
    case h_1 lTagHash hkey =>
      have hne : h ≠ lTagHash := fun heq => hcoins.1 (heq ▸ hkey)
      have herased : CSparkWallet.Replaced wallet.hashes w (w.eraseMint wallet.hashes lTagHash)
          lTagHash none := CSparkWallet.replaced_eraseMint w lTagHash
      exact (congrFun herased.records_eq h).trans (Function.update_of_ne hne _ _)
    case h_2 => rfl

variable (s : CSparkState Coin Tag) (mempoolHasLTag : Tag → Bool)

omit [DecidableEq Coin] [DecidableEq Tag] in
lemma getElem?_updateMintState (hcoins : ∀ coin ∈ coins, wallet.key coin ≠ some h) :
    (updateMintState wallet s mempoolHasLTag coins w).coinMeta[h]? = w.coinMeta[h]? := by
  induction coins generalizing w with
  | nil => rfl
  | cons coin coins ih =>
    rw [forall_mem_cons] at hcoins
    unfold updateMintState
    split
    case h_1 data hrecover =>
      have hne : wallet.getLTagHash data.T ≠ h := by
        intro heq
        apply hcoins.1
        rw [WalletEnv.key, hrecover, ← heq]
        rfl
      rw [ih hcoins.2, WalletCall.getElem?_addOrUpdateMint, if_neg hne]
    case h_2 => exact ih hcoins.2
    case h_3 => rfl

def EntryOf (s : CSparkState Coin Tag) (coin : Coin) (mint : CSparkMintMeta (Coin × Context) K) :
    Prop :=
  mint.coin.1 = coin ∧ (mint.nHeight, mint.nId) = s.getMintedCoinHeightAndId coin

omit [DecidableEq Coin] [DecidableEq Tag] in
lemma getElem?_updateMintState_of_mem (hraises : ∀ coin ∈ coins, wallet.raises coin = false)
    (hmem : ∃ coin ∈ coins, wallet.key coin = some h) :
    ∃ coin ∈ coins, wallet.key coin = some h ∧ ∃ mint,
      (updateMintState wallet s mempoolHasLTag coins w).coinMeta[h]? = some mint ∧
        EntryOf s coin.1 mint := by
  induction coins generalizing w with
  | nil => simp at hmem
  | cons coin coins ih =>
    rw [forall_mem_cons] at hraises
    by_cases hlater : ∃ coin ∈ coins, wallet.key coin = some h
    · -- a later coin with the tag decides
      have hrest : ∀ w : CSparkWallet (Coin × Context) K Hash, ∃ c ∈ coin :: coins,
          wallet.key c = some h ∧ ∃ mint,
            (updateMintState wallet s mempoolHasLTag coins w).coinMeta[h]? = some mint ∧
              EntryOf s c.1 mint := by
        intro w
        obtain ⟨c, hc, hresult⟩ := ih hraises.2 hlater (w := w)
        exact ⟨c, mem_cons_of_mem _ hc, hresult⟩
      unfold updateMintState
      split
      case h_1 => exact hrest _
      case h_2 => exact hrest _
      case h_3 hrecover => simp [WalletEnv.raises, hrecover] at hraises
    · have hkey : wallet.key coin = some h := by
        obtain ⟨c, hc, hkey⟩ := hmem
        rcases mem_cons.mp hc with rfl | hc
        · exact hkey
        · exact absurd ⟨c, hc, hkey⟩ hlater
      refine ⟨coin, mem_cons_self, hkey, ?_⟩
      have hothers : ∀ c ∈ coins, wallet.key c ≠ some h := fun c hc hk => hlater ⟨c, hc, hk⟩
      unfold WalletEnv.key at hkey
      unfold updateMintState
      cases hrecover : wallet.recover coin with
      | error e =>
        rw [hrecover] at hkey
        cases hkey
      | ok data =>
        rw [hrecover] at hkey
        have hhash : wallet.getLTagHash data.T = h := Option.some.inj hkey
        dsimp only
        rw [getElem?_updateMintState s mempoolHasLTag hothers,
          WalletCall.getElem?_addOrUpdateMint, if_pos hhash]
        exact ⟨_, rfl, rfl, rfl⟩

end

def Task.Writes (env : SparkEnv Coin Tag Proof) (wallet : WalletEnv Coin Tag Context K Hash)
    (h : Hash) : Task Coin Tag Context → Prop
  | .spendFromMempool _ _ | .spendFromBlock _ => False
  | .mintFromMempool coins _ => ∃ coin ∈ coins, wallet.key coin = some h
  | .mintFromBlock block => ∃ coin ∈ blockMintCoins env wallet block, wallet.key coin = some h

section

variable {s : WalletNode Coin Tag Proof Context K Hash} {task : Task Coin Tag Context} {h : Hash}
  {block : CBlock}

omit [DecidableEq Coin] in
lemma getElem?_runTask (hclean : ¬ task.Writes env wallet h) :
    (s.runTask env wallet task).coinMeta[h]? = s.sparkWallet.coinMeta[h]? ∨
      (s.runTask env wallet task).coinMeta[h]? =
        (s.sparkWallet.coinMeta[h]?).map (marked true) := by
  have hspend : ∀ lTags : List Tag,
      (lTags.foldl (updateSpendState wallet) s.sparkWallet).coinMeta[h]? =
          s.sparkWallet.coinMeta[h]? ∨
        (lTags.foldl (updateSpendState wallet) s.sparkWallet).coinMeta[h]? =
          (s.sparkWallet.coinMeta[h]?).map (marked true) := by
    intro lTags
    rw [getElem?_foldl_updateSpendState]
    split
    · exact .inr rfl
    · exact .inl rfl
  cases task with
  | spendFromMempool lTags txHash =>
    simp only [runTask]
    split
    · exact hspend lTags
    · exact .inl rfl
  | spendFromBlock block =>
    simp only [runTask]
    split
    · exact hspend _
    · exact .inl rfl
  | mintFromMempool coins txHash =>
    simp only [runTask]
    split
    · exact .inl (getElem?_updateMintState _ _ fun coin hc hk => hclean ⟨coin, hc, hk⟩)
    · exact .inl rfl
  | mintFromBlock block =>
    simp only [runTask]
    split
    · exact .inl (getElem?_updateMintState _ _ fun coin hc hk => hclean ⟨coin, hc, hk⟩)
    · exact .inl rfl

omit [DecidableEq Coin] [DecidableEq Tag] [Std.LawfulEqOrd Hash] [DecidableEq Hash] in
lemma containsBlock_of_mem {b} (hb : b ∈ s.node.chain) : s.containsBlock b.block = true :=
  any_eq_true.mpr ⟨b, hb, beq_self_eq_true _⟩

end

def WalletEnv.SameTag (wallet : WalletEnv Coin Tag Context K Hash) (coin coin' : Coin × Context) :
    Prop :=
  (wallet.key coin).isSome = true ∧ wallet.key coin = wallet.key coin'

instance (coin coin' : Coin × Context) : Decidable (wallet.SameTag coin coin') :=
  inferInstanceAs (Decidable (_ ∧ _))

omit [DecidableEq Coin] [DecidableEq Tag] [Ord Hash] [Std.TransOrd Hash] [Std.LawfulEqOrd Hash]
  [DecidableEq Hash] in
lemma WalletEnv.sameTag_of_eq_some {coin coin'} {h : Hash} (hkey : wallet.key coin = some h)
    (hkey' : wallet.key coin' = some h) : wallet.SameTag coin coin' :=
  ⟨Option.isSome_of_eq_some hkey, hkey.trans hkey'.symm⟩

section

variable (env wallet)

def walletKeys (block : CBlock) : List Hash :=
  (blockMintCoins env wallet block).filterMap wallet.key

def spentKeys (block : CBlock) : List Hash :=
  (block.usedTags env).map wallet.getLTagHash

/-- A block on a chain in which the linking tags of the wallet's coins mean what they should: one
coin, which is minted once, spent later, and spent once. -/
structure TagsSound (block : CBlock) (chain : List (CBlockIndex Coin Tag)) : Prop where
  caught : ∀ coin ∈ blockMintCoins env wallet block, wallet.raises coin = false
  single : ∀ coin ∈ blockMintCoins env wallet block, ∀ coin' ∈ blockMintCoins env wallet block,
    wallet.SameTag coin coin' → coin.1 = coin'.1
  unspent : ∀ h ∈ walletKeys env wallet block, h ∉ spentKeys env wallet block
  fresh : ∀ h ∈ walletKeys env wallet block, ∀ b ∈ chain,
    h ∉ walletKeys env wallet b.block ∧ h ∉ spentKeys env wallet b.block
  once : ∀ h ∈ spentKeys env wallet block, ∀ b ∈ chain, h ∈ walletKeys env wallet b.block →
    ∀ b' ∈ chain, h ∉ spentKeys env wallet b'.block

instance (block : CBlock) (chain : List (CBlockIndex Coin Tag)) :
    Decidable (TagsSound env wallet block chain) :=
  decidable_of_iff ((∀ coin ∈ blockMintCoins env wallet block, wallet.raises coin = false) ∧
      (∀ coin ∈ blockMintCoins env wallet block, ∀ coin' ∈ blockMintCoins env wallet block,
        wallet.SameTag coin coin' → coin.1 = coin'.1) ∧
      (∀ h ∈ walletKeys env wallet block, h ∉ spentKeys env wallet block) ∧
      (∀ h ∈ walletKeys env wallet block, ∀ b ∈ chain,
        h ∉ walletKeys env wallet b.block ∧ h ∉ spentKeys env wallet b.block) ∧
      ∀ h ∈ spentKeys env wallet block, ∀ b ∈ chain, h ∈ walletKeys env wallet b.block →
        ∀ b' ∈ chain, h ∉ spentKeys env wallet b'.block)
    ⟨fun ⟨h₁, h₂, h₃, h₄, h₅⟩ => ⟨h₁, h₂, h₃, h₄, h₅⟩,
      fun ⟨h₁, h₂, h₃, h₄, h₅⟩ => ⟨h₁, h₂, h₃, h₄, h₅⟩⟩

def ChainSound : List (CBlockIndex Coin Tag) → Prop
  | [] => True
  | b :: chain => TagsSound env wallet b.block chain ∧ ChainSound chain

variable {env wallet} {chain : List (CBlockIndex Coin Tag)} {b : CBlockIndex Coin Tag}
  {coin : Coin × Context} {h : Hash}

omit [DecidableEq Coin] [DecidableEq Tag] [Ord Hash] [Std.TransOrd Hash] [Std.LawfulEqOrd Hash]
  [DecidableEq Hash] in
lemma mem_walletKeys {block} : h ∈ walletKeys env wallet block ↔
    ∃ coin ∈ blockMintCoins env wallet block, wallet.key coin = some h :=
  mem_filterMap

omit [DecidableEq Coin] [DecidableEq Tag] [Ord Hash] [Std.TransOrd Hash] [Std.LawfulEqOrd Hash]
  [DecidableEq Hash] in
lemma ChainSound.of_mem (hchain : ChainSound env wallet chain) (hb : b ∈ chain) :
    (∀ coin ∈ blockMintCoins env wallet b.block, wallet.raises coin = false) ∧
      ∀ coin ∈ blockMintCoins env wallet b.block, ∀ coin' ∈ blockMintCoins env wallet b.block,
        wallet.SameTag coin coin' → coin.1 = coin'.1 := by
  induction chain with
  | nil => cases hb
  | cons b' chain ih =>
    rcases mem_cons.mp hb with rfl | hb
    · exact ⟨hchain.1.caught, hchain.1.single⟩
    · exact ih hchain.2 hb

end

end Firo.Wallet
