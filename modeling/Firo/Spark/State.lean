import Firo.Lib.Fold
import Firo.Lib.Linked
import Firo.Spark.Basic

/-! `CSparkState` of `spark/state.h` with the operations of `spark/state.cpp` that connect,
disconnect and replay a block. A block pointer is followed in the list of blocks below it, newest
first; `none` is a failed assertion or a null dereference, both of which abort the node. -/
namespace Firo.Spark

open Firo.Lib
open Function (update update_of_ne)

structure SparkCoinGroupInfo where
  firstBlock : BlockPtr := none
  lastBlock : BlockPtr := none
  nCoins : Nat := 0
deriving DecidableEq, Repr

structure CMintedCoinInfo where
  coinGroupId : Int
  nHeight : Int
deriving DecidableEq, Repr

structure CSparkState (Coin Tag : Type) where
  maxCoinInGroup : Nat
  startGroupSize : Nat
  latestCoinId : Int := 0
  coinGroups : Int → Option SparkCoinGroupInfo := fun _ => none
  mintedCoins : Coin → Option CMintedCoinInfo := fun _ => none
  usedLTags : Tag → Option Int := fun _ => none
  mintMetaInfo : Int → Option Nat := fun _ => none

variable {Coin Tag : Type}

def countCoinInBlock (index : CBlockIndex Coin Tag) (id : Int) : Nat :=
  match index.sparkMintedCoins[id]? with
  | some coins => coins.length
  | none => 0

def CBlockIndex.pushMint (index : CBlockIndex Coin Tag) (id : Int) (mint : Coin) :
    CBlockIndex Coin Tag :=
  { index with
    sparkMintedCoins :=
      index.sparkMintedCoins.insert id ((index.sparkMintedCoins[id]?).getD [] ++ [mint]) }

/-- The difference of two `size_t`, which wraps at `2 ^ 64`. -/
def sizeSub (a b : Nat) : Nat :=
  if b ≤ a then a - b else a + 2 ^ 64 - b

namespace CSparkState

variable (s : CSparkState Coin Tag)

def getMintedCoinHeightAndId (coin : Coin) : Int × Int :=
  match s.mintedCoins coin with
  | some info => (info.nHeight, info.coinGroupId)
  | none => (-1, -1)

def isUsedLTag (lTag : Tag) : Bool :=
  (s.usedLTags lTag).isSome

def addMint [DecidableEq Coin] (s : CSparkState Coin Tag) (coin : Coin)
    (coinInfo : CMintedCoinInfo) : CSparkState Coin Tag :=
  match s.mintedCoins coin with
  | some _ => s
  | none =>
    { s with
      mintedCoins := update s.mintedCoins coin (some coinInfo)
      mintMetaInfo := update s.mintMetaInfo coinInfo.coinGroupId
        (some ((s.mintMetaInfo coinInfo.coinGroupId).getD 0 + 1)) }

def removeMint [DecidableEq Coin] (s : CSparkState Coin Tag) (coin : Coin)
    (expectedGroupId expectedHeight : Int) : CSparkState Coin Tag :=
  if s.mintedCoins coin = some ⟨expectedGroupId, expectedHeight⟩ then
    { s with
      mintedCoins := update s.mintedCoins coin none
      mintMetaInfo := update s.mintMetaInfo expectedGroupId
        ((s.mintMetaInfo expectedGroupId).map (· - 1)) }
  else s

def addSpend [DecidableEq Tag] (s : CSparkState Coin Tag) (lTag : Tag) (coinGroupId : Int) :
    CSparkState Coin Tag :=
  if (s.mintMetaInfo coinGroupId).isSome then
    { s with usedLTags := update s.usedLTags lTag (some coinGroupId) }
  else s

def removeSpend [DecidableEq Tag] (s : CSparkState Coin Tag) (lTag : Tag) : CSparkState Coin Tag :=
  { s with usedLTags := update s.usedLTags lTag none }

def addMints [DecidableEq Coin] (s : CSparkState Coin Tag) (coins : List Coin)
    (coinInfo : CMintedCoinInfo) : CSparkState Coin Tag :=
  coins.foldl (fun s coin => s.addMint coin coinInfo) s

def removeMints [DecidableEq Coin] (s : CSparkState Coin Tag) (coins : List Coin)
    (expectedGroupId expectedHeight : Int) : CSparkState Coin Tag :=
  coins.foldl (fun s coin => s.removeMint coin expectedGroupId expectedHeight) s

def addSpends [DecidableEq Tag] (s : CSparkState Coin Tag) (lTags : List (Tag × Int)) :
    CSparkState Coin Tag :=
  lTags.foldl (fun s lTag => s.addSpend lTag.1 lTag.2) s

def removeSpends [DecidableEq Tag] (s : CSparkState Coin Tag) (lTags : List (Tag × Int)) :
    CSparkState Coin Tag :=
  lTags.foldl (fun s lTag => s.removeSpend lTag.1) s

def setGroup (id : Int) (info : SparkCoinGroupInfo) : CSparkState Coin Tag :=
  { s with coinGroups := update s.coinGroups id (some info) }

def countBack (groupId : Int) (required : Nat) :
    List (CBlockIndex Coin Tag) → Nat → BlockPtr → Nat × BlockPtr
  | [], coins, first => (coins, first)
  | block :: rest, coins, first =>
    if coins < required then
      if countCoinInBlock block groupId = 0 then countBack groupId required rest coins first
      else countBack groupId required rest (coins + countCoinInBlock block groupId)
        (some block.hash)
    else (coins, first)

def countLastNCoins (chain : List (CBlockIndex Coin Tag))
    (groupId : Int) (required : Nat) : Nat × BlockPtr :=
  match s.coinGroups groupId with
  | some ⟨_, some last, _⟩ =>
    countBack groupId required (below CBlockIndex.hash last chain) 0 none
  | _ => (0, none)

variable (index : CBlockIndex Coin Tag) (chain : List (CBlockIndex Coin Tag))

/-- The first half of `AddMintsToStateAndBlockIndex`: choose the group of the
block's mints and account for them there. -/
def placeMints (blockMints : List Coin) : Option (CSparkState Coin Tag) :=
  let latest := max 1 s.latestCoinId
  let coinGroup := (s.coinGroups latest).getD {}
  let s := { s.setGroup latest coinGroup with latestCoinId := latest }
  let nCoins := coinGroup.nCoins + blockMints.length
  if nCoins ≤ s.maxCoinInGroup then
    if coinGroup.nCoins = 0 then
      if coinGroup.firstBlock = none ∧ coinGroup.lastBlock = none then
        some (s.setGroup latest ⟨some index.hash, some index.hash, nCoins⟩)
      else none
    else
      match coinGroup.firstBlock, coinGroup.lastBlock with
      | some first, some last =>
        match below CBlockIndex.hash last chain with
        | block :: _ =>
          if block.nHeight ≤ index.nHeight then
            some (s.setGroup latest ⟨some first, some index.hash, nCoins⟩)
          else none
        | [] => none
      | _, _ => none
  else
    let (coins, first) := s.countLastNCoins chain latest s.startGroupSize
    some { s.setGroup (latest + 1)
        ⟨first.or (some index.hash), some index.hash, coins + blockMints.length⟩ with
      latestCoinId := latest + 1 }

/-- `AddMintsToStateAndBlockIndex`, which also writes `sparkMintedCoins` of the
block that is being connected on top of `chain`. -/
def addMintsToStateAndBlockIndex [DecidableEq Coin] (s : CSparkState Coin Tag)
    (index : CBlockIndex Coin Tag) (chain : List (CBlockIndex Coin Tag))
    (blockMints : List Coin) : Option (CSparkState Coin Tag × CBlockIndex Coin Tag) :=
  (s.placeMints index chain blockMints).map fun s =>
    blockMints.foldl (fun (s, index) mint =>
        (addMint s mint ⟨s.latestCoinId, index.nHeight⟩, index.pushMint s.latestCoinId mint))
      (s, index)

/-- The record that `AddBlock` leaves for a group which gets `n` coins of a block. -/
def grownGroup (id : Int) (n : Nat) : SparkCoinGroupInfo :=
  let coinGroup := (s.coinGroups id).getD {}
  let coinGroup :=
    if coinGroup.firstBlock = none then
      if 1 < id then
        let (coins, first) := s.countLastNCoins chain (id - 1) s.startGroupSize
        { coinGroup with firstBlock := first.or (some index.hash), nCoins := coins }
      else { coinGroup with firstBlock := some index.hash }
    else coinGroup
  { coinGroup with lastBlock := some index.hash, nCoins := coinGroup.nCoins + n }

def addBlockCoins [DecidableEq Coin] (index : CBlockIndex Coin Tag)
    (chain : List (CBlockIndex Coin Tag)) (s : CSparkState Coin Tag) (entry : Int × List Coin) :
    CSparkState Coin Tag :=
  let (id, coins) := entry
  if coins.isEmpty then s
  else
    { s.setGroup id (s.grownGroup index chain id coins.length) with
      latestCoinId := id : CSparkState Coin Tag }.addMints coins ⟨id, index.nHeight⟩

def addBlock [DecidableEq Coin] [DecidableEq Tag] (s : CSparkState Coin Tag)
    (index : CBlockIndex Coin Tag) (chain : List (CBlockIndex Coin Tag)) : CSparkState Coin Tag :=
  (index.sparkMintedCoins.toList.foldl (addBlockCoins index chain) s).addSpends index.spentLTags

/-- The search of `RemoveBlock` for the newest block below that holds coins of the
group `id` or of the group before it: the number of coins of the previous group
in that block, zero when it holds coins of `id` itself. -/
def prevGroupCount (id : Int) : List (CBlockIndex Coin Tag) → Nat
  | [] => 0
  | block :: rest =>
    if countCoinInBlock block id = 0 then
      if countCoinInBlock block (id - 1) = 0 then prevGroupCount id rest
      else countCoinInBlock block (id - 1)
    else 0

/-- The loop of `RemoveBlock` that moves `lastBlock` back to the previous block
with coins of the group. -/
def rollBackLastBlock (id : Int) (firstBlock : BlockPtr) :
    Uint256 → List (CBlockIndex Coin Tag) → Option Uint256
  | _, [] => none
  | lastBlock, block :: rest =>
    if some lastBlock = firstBlock then none
    else if block.sparkMintedCoins.contains id then some block.hash
    else rollBackLastBlock id firstBlock block.hash rest

def removeBlockCoins
    (s : CSparkState Coin Tag) (entry : Int × List Coin) : Option (CSparkState Coin Tag) :=
  let (id, coins) := entry
  match s.coinGroups id with
  | none => some s
  | some coinGroup =>
    if coins.length = 0 then some s
    else if coinGroup.nCoins < coins.length then none
    else
      let nCoins := coinGroup.nCoins - coins.length
      let prev := prevGroupCount id chain
      let isExtended := decide (1 < id)
      let isEdgedBlock :=
        isExtended && decide (0 < prev) && decide (sizeSub nCoins prev < s.startGroupSize)
      if (!isExtended && nCoins == 0) || (isExtended && isEdgedBlock) then
        some { s with
          coinGroups := update s.coinGroups id none
          latestCoinId := s.latestCoinId - 1 }
      else if coinGroup.lastBlock = some index.hash then
        (rollBackLastBlock id coinGroup.firstBlock index.hash chain).map fun last =>
          s.setGroup id { coinGroup with lastBlock := some last, nCoins := nCoins }
      else none

def removeBlock [DecidableEq Coin] [DecidableEq Tag] (s : CSparkState Coin Tag)
    (index : CBlockIndex Coin Tag) (chain : List (CBlockIndex Coin Tag)) :
    Option (CSparkState Coin Tag) :=
  (index.sparkMintedCoins.toList.foldlM (removeBlockCoins index chain) s).map fun s =>
    (index.sparkMintedCoins.toList.foldl
      (fun s entry => s.removeMints entry.2 entry.1 index.nHeight) s).removeSpends
      index.spentLTags

section

variable [DecidableEq Coin] (s : CSparkState Coin Tag) (coins : List Coin) (info : CMintedCoinInfo)

@[simp] lemma addMints_coinGroups : (s.addMints coins info).coinGroups = s.coinGroups :=
  foldl_keeps coinGroups (fun s a => by unfold addMint; split <;> rfl) _ _

@[simp] lemma addMints_latestCoinId : (s.addMints coins info).latestCoinId = s.latestCoinId :=
  foldl_keeps latestCoinId (fun s a => by unfold addMint; split <;> rfl) _ _

@[simp] lemma addMints_usedLTags : (s.addMints coins info).usedLTags = s.usedLTags :=
  foldl_keeps usedLTags (fun s a => by unfold addMint; split <;> rfl) _ _

@[simp] lemma addMints_maxCoinInGroup : (s.addMints coins info).maxCoinInGroup = s.maxCoinInGroup :=
  foldl_keeps maxCoinInGroup (fun s a => by unfold addMint; split <;> rfl) _ _

@[simp] lemma addMints_startGroupSize : (s.addMints coins info).startGroupSize = s.startGroupSize :=
  foldl_keeps startGroupSize (fun s a => by unfold addMint; split <;> rfl) _ _

lemma addMints_mintedCoins (c : Coin) : (s.addMints coins info).mintedCoins c =
    (s.mintedCoins c).or (if c ∈ coins then some info else none) := by
  induction coins generalizing s with
  | nil => simp [addMints]
  | cons coin coins ih =>
    change ((s.addMint coin info).addMints coins info).mintedCoins c = _
    rw [ih]
    unfold addMint
    split
    case h_1 i hi =>
      by_cases hc : c = coin
      · subst hc
        simp [hi]
      · simp [hc]
    case h_2 hn =>
      by_cases hc : c = coin
      · subst hc
        simp [hn]
      · simp [hc]

lemma addMints_mintMetaInfo_isSome (G : Int) :
    ((s.addMints coins info).mintMetaInfo G).isSome ↔ (s.mintMetaInfo G).isSome ∨
      G = info.coinGroupId ∧ ∃ c ∈ coins, s.mintedCoins c = none := by
  induction coins generalizing s with
  | nil => simp [addMints]
  | cons coin coins ih =>
    change (((s.addMint coin info).addMints coins info).mintMetaInfo G).isSome ↔ _
    rw [ih]
    unfold addMint
    split
    case h_1 i hi => simp [hi]
    case h_2 hn =>
      by_cases hG : G = info.coinGroupId
      · subst hG
        simp [hn]
      · simp [hG]

variable (id height : Int)

@[simp] lemma removeMints_coinGroups : (s.removeMints coins id height).coinGroups = s.coinGroups :=
  foldl_keeps coinGroups (fun s a => by unfold removeMint; split <;> rfl) _ _

@[simp] lemma removeMints_latestCoinId :
    (s.removeMints coins id height).latestCoinId = s.latestCoinId :=
  foldl_keeps latestCoinId (fun s a => by unfold removeMint; split <;> rfl) _ _

@[simp] lemma removeMints_usedLTags : (s.removeMints coins id height).usedLTags = s.usedLTags :=
  foldl_keeps usedLTags (fun s a => by unfold removeMint; split <;> rfl) _ _

@[simp] lemma removeMints_maxCoinInGroup :
    (s.removeMints coins id height).maxCoinInGroup = s.maxCoinInGroup :=
  foldl_keeps maxCoinInGroup (fun s a => by unfold removeMint; split <;> rfl) _ _

@[simp] lemma removeMints_startGroupSize :
    (s.removeMints coins id height).startGroupSize = s.startGroupSize :=
  foldl_keeps startGroupSize (fun s a => by unfold removeMint; split <;> rfl) _ _

lemma removeMints_mintedCoins (c : Coin) : (s.removeMints coins id height).mintedCoins c =
    if c ∈ coins ∧ s.mintedCoins c = some ⟨id, height⟩ then none else s.mintedCoins c := by
  induction coins generalizing s with
  | nil => simp [removeMints]
  | cons coin coins ih =>
    change ((s.removeMint coin id height).removeMints coins id height).mintedCoins c = _
    rw [ih]
    unfold removeMint
    by_cases hc : c = coin
    · subst hc
      split_ifs <;> simp_all
    · split_ifs <;> simp_all

end

section

variable [DecidableEq Tag] (s : CSparkState Coin Tag) (lTags : List (Tag × Int))

@[simp] lemma addSpends_coinGroups : (s.addSpends lTags).coinGroups = s.coinGroups :=
  foldl_keeps coinGroups (fun s a => by unfold addSpend; split <;> rfl) _ _

@[simp] lemma addSpends_latestCoinId : (s.addSpends lTags).latestCoinId = s.latestCoinId :=
  foldl_keeps latestCoinId (fun s a => by unfold addSpend; split <;> rfl) _ _

@[simp] lemma addSpends_mintedCoins : (s.addSpends lTags).mintedCoins = s.mintedCoins :=
  foldl_keeps mintedCoins (fun s a => by unfold addSpend; split <;> rfl) _ _

@[simp] lemma addSpends_mintMetaInfo : (s.addSpends lTags).mintMetaInfo = s.mintMetaInfo :=
  foldl_keeps mintMetaInfo (fun s a => by unfold addSpend; split <;> rfl) _ _

@[simp] lemma addSpends_maxCoinInGroup : (s.addSpends lTags).maxCoinInGroup = s.maxCoinInGroup :=
  foldl_keeps maxCoinInGroup (fun s a => by unfold addSpend; split <;> rfl) _ _

@[simp] lemma addSpends_startGroupSize : (s.addSpends lTags).startGroupSize = s.startGroupSize :=
  foldl_keeps startGroupSize (fun s a => by unfold addSpend; split <;> rfl) _ _

variable {s lTags} in
lemma addSpends_usedLTags_of_notMem {t : Tag} (ht : t ∉ lTags.map (·.1)) :
    (s.addSpends lTags).usedLTags t = s.usedLTags t := by
  induction lTags generalizing s with
  | nil => rfl
  | cons lTag lTags ih =>
    simp only [List.map_cons, List.mem_cons, not_or] at ht
    change ((s.addSpend lTag.1 lTag.2).addSpends lTags).usedLTags t = _
    rw [ih ht.2]
    unfold addSpend
    split
    · exact update_of_ne ht.1 _ _
    · rfl

variable {s lTags} in
lemma addSpends_usedLTags_of_mem (hnodup : (lTags.map (·.1)).Nodup) {lTag : Tag × Int}
    (hmem : lTag ∈ lTags) : (s.addSpends lTags).usedLTags lTag.1 =
      if (s.mintMetaInfo lTag.2).isSome then some lTag.2 else s.usedLTags lTag.1 := by
  induction lTags generalizing s with
  | nil => cases hmem
  | cons head lTags ih =>
    rw [List.map_cons, List.nodup_cons] at hnodup
    change ((s.addSpend head.1 head.2).addSpends lTags).usedLTags lTag.1 = _
    rcases List.mem_cons.mp hmem with rfl | hmem
    · rw [addSpends_usedLTags_of_notMem hnodup.1]
      unfold addSpend
      split <;> simp
    · have hne : lTag.1 ≠ head.1 := by
        rintro heq
        exact hnodup.1 (heq ▸ List.mem_map_of_mem hmem)
      have hmeta : (s.addSpend head.1 head.2).mintMetaInfo = s.mintMetaInfo := by
        unfold addSpend
        split <;> rfl
      have hused : (s.addSpend head.1 head.2).usedLTags lTag.1 = s.usedLTags lTag.1 := by
        unfold addSpend
        split
        · exact update_of_ne hne _ _
        · rfl
      rw [ih hnodup.2 hmem, hmeta, hused]

lemma removeSpends_eq : s.removeSpends lTags =
    { s with usedLTags := fun t => if t ∈ lTags.map (·.1) then none else s.usedLTags t } := by
  induction lTags generalizing s with
  | nil => simp [removeSpends]
  | cons lTag lTags ih =>
    change (s.removeSpend lTag.1).removeSpends lTags = _
    rw [ih]
    simp only [removeSpend, List.map_cons, List.mem_cons]
    congr 1
    funext t
    by_cases ht : t = lTag.1
    · simp [ht]
    · simp only [ht, update_of_ne, false_or, ne_eq, not_false_eq_true]

@[simp] lemma removeSpends_coinGroups : (s.removeSpends lTags).coinGroups = s.coinGroups := by
  rw [removeSpends_eq]

@[simp] lemma removeSpends_latestCoinId : (s.removeSpends lTags).latestCoinId = s.latestCoinId := by
  rw [removeSpends_eq]

@[simp] lemma removeSpends_mintedCoins : (s.removeSpends lTags).mintedCoins = s.mintedCoins := by
  rw [removeSpends_eq]

@[simp] lemma removeSpends_maxCoinInGroup :
    (s.removeSpends lTags).maxCoinInGroup = s.maxCoinInGroup := by
  rw [removeSpends_eq]

@[simp] lemma removeSpends_startGroupSize :
    (s.removeSpends lTags).startGroupSize = s.startGroupSize := by
  rw [removeSpends_eq]

end

end CSparkState

end Firo.Spark
