import Firo.Spark.Replay

/-! `AddMintsToStateAndBlockIndex` and `RemoveBlock` on a state whose groups agree with the replay
of its chain. Connecting never fails an assertion and keeps the agreement; disconnecting keeps it
whenever it does not abort. -/
namespace Firo.Spark

open Firo.Lib CSparkState
open List hiding lt_irrefl not_le
open Function (update_of_ne update update_self)

variable {Coin Tag : Type}

/-- The groups, the newest id and the minted coins of a live state are those of the
replayed state `r`. A first block with more mints than a group holds leaves an empty
record for the group 1 behind, which the replay does not create. -/
structure Agrees (s r : CSparkState Coin Tag) : Prop where
  maxCoinInGroup_eq : s.maxCoinInGroup = r.maxCoinInGroup
  startGroupSize_eq : s.startGroupSize = r.startGroupSize
  latest_eq : s.latestCoinId = r.latestCoinId
  minted_eq : s.mintedCoins = r.mintedCoins
  groups_eq : ∀ G, s.coinGroups G = r.coinGroups G ∨
    G = 1 ∧ 1 < r.latestCoinId ∧ s.coinGroups G = some {} ∧ r.coinGroups G = none

namespace Agrees

variable {s r : CSparkState Coin Tag}

lemma group_of_some (h : Agrees s r) {G : Int} {info}
    (hG : r.coinGroups G = some info) : s.coinGroups G = some info := by
  rcases h.groups_eq G with he | ⟨-, -, -, hnone⟩
  · rw [he, hG]
  · rw [hnone] at hG
    cases hG

lemma group_of_latest_le (h : Agrees s r) {G : Int} (hG : r.latestCoinId ≤ G) :
    s.coinGroups G = r.coinGroups G := by
  rcases h.groups_eq G with he | ⟨rfl, hlt, -, -⟩
  · exact he
  · omega

lemma countLastNCoins_eq (h : Agrees s r) (chain) (G : Int)
    (required : Nat) : s.countLastNCoins chain G required = r.countLastNCoins chain G required := by
  unfold CSparkState.countLastNCoins
  rcases h.groups_eq G with he | ⟨-, -, hs, hr⟩
  · rw [he]
  · rw [hs, hr]

end Agrees

variable {s' : CSparkState Coin Tag}

namespace CSparkState

variable {s r : CSparkState Coin Tag} {chain : List (CBlockIndex Coin Tag)}
  {index : CBlockIndex Coin Tag} {mints : List Coin}

/-- What `AddMintsToStateAndBlockIndex` does to the groups: it puts the mints into
the newest group when they fit and into the next one otherwise, and the record of
that group is the one that `AddBlock` computes. -/
structure Placed (s r s' : CSparkState Coin Tag) (index : CBlockIndex Coin Tag)
    (chain : List (CBlockIndex Coin Tag)) (mints : List Coin) : Prop where
  fits_or_opens : s'.latestCoinId = max 1 s.latestCoinId ∧
      ((s.coinGroups s'.latestCoinId).getD {}).nCoins + mints.length ≤ s.maxCoinInGroup ∨
    s'.latestCoinId = max 1 s.latestCoinId + 1 ∧ s.maxCoinInGroup <
        ((s.coinGroups (max 1 s.latestCoinId)).getD {}).nCoins + mints.length
  group_eq : s'.coinGroups s'.latestCoinId =
    some (r.grownGroup index chain s'.latestCoinId mints.length)
  groups_eq : ∀ G, G ≠ s'.latestCoinId → s'.coinGroups G = s.coinGroups G ∨
    G = 1 ∧ s'.latestCoinId = 2 ∧ s.latestCoinId = 0 ∧ s'.coinGroups G = some {}
  frame : s'.maxCoinInGroup = s.maxCoinInGroup ∧ s'.startGroupSize = s.startGroupSize ∧
    s'.mintedCoins = s.mintedCoins ∧ s'.usedLTags = s.usedLTags ∧
    s'.mintMetaInfo = s.mintMetaInfo

def Fits (s : CSparkState Coin Tag) (mints : Nat) : Prop :=
  ((s.coinGroups (max 1 s.latestCoinId)).getD {}).nCoins + mints ≤ s.maxCoinInGroup

instance (s : CSparkState Coin Tag) (mints : Nat) : Decidable (s.Fits mints) :=
  inferInstanceAs (Decidable (_ ≤ _))

def mintGroup (s : CSparkState Coin Tag) (mints : Nat) : Int :=
  if s.Fits mints then max 1 s.latestCoinId else max 1 s.latestCoinId + 1

@[simp] lemma fits_addSpends [DecidableEq Tag] (lTags) (n : Nat) :
    (s.addSpends lTags).Fits n ↔ s.Fits n := by
  simp [Fits]

@[simp] lemma mintGroup_addSpends [DecidableEq Tag] (lTags) (n : Nat) :
    (s.addSpends lTags).mintGroup n = s.mintGroup n := by
  simp [mintGroup]

lemma Placed.latestCoinId_eq (h : Placed s r s' index chain mints) :
    s'.latestCoinId = s.mintGroup mints.length := by
  unfold mintGroup
  rcases h.fits_or_opens with ⟨hid, hfits⟩ | ⟨hid, hopens⟩
  · rw [hid] at hfits
    have hfits' : s.Fits mints.length := hfits
    rw [if_pos hfits', hid]
  · have hfits : ¬ s.Fits mints.length := not_le.mpr hopens
    rw [if_neg hfits, hid]

lemma Placed.of_hash_eq {index' : CBlockIndex Coin Tag} (h : Placed s r s' index chain mints)
    (hhash : index'.hash = index.hash) : Placed s r s' index' chain mints := by
  refine ⟨h.fits_or_opens, ?_, h.groups_eq, h.frame⟩
  rw [h.group_eq]
  simp only [grownGroup, hhash]

lemma placeMints_first (h : Agrees s r) (hinv : GroupsInv r chain) (hzero : latestId chain = 0) :
    ∃ s', s.placeMints index chain mints = some s' ∧ Placed s r s' index chain mints := by
  have hlatest : s.latestCoinId = 0 := by rw [h.latest_eq, hinv.latest_eq, hzero]
  have hnone : ∀ G, r.coinGroups G = none := by
    intro G
    rw [Option.eq_none_iff_forall_ne_some]
    intro info hinfo
    have := hinv.bounds G info hinfo
    omega
  have hs : ∀ G, s.coinGroups G = none := by
    intro G
    rcases h.groups_eq G with he | ⟨-, hlt, -⟩
    · rw [he, hnone]
    · rw [hinv.latest_eq, hzero] at hlt
      omega
  have hgrown : ∀ id n, r.grownGroup index chain id n = ⟨some index.hash, some index.hash, n⟩ := by
    intro id n
    have hcount : (if 1 < id then r.countLastNCoins chain (id - 1) r.startGroupSize
        else (0, none)) = (0, none) := by
      rw [hinv.countLastNCoins_of_zero hzero, ite_self]
    rw [r.grownGroup_of_none (hnone id) hcount, zero_add]
    rfl
  by_cases hfit : mints.length ≤ s.maxCoinInGroup
  · refine ⟨_, by simp [placeMints, hlatest, hs, setGroup, hfit]; rfl, ?_⟩
    constructor
    · left
      simp [hlatest, hs, hfit]
    · simp [hgrown]
    · intro G hG
      left
      simp_all
    · simp
  · refine ⟨_, by simp [placeMints, hlatest, hs, setGroup, hfit, countLastNCoins]; rfl, ?_⟩
    constructor
    · right
      simp [hlatest, hs]
      omega
    · simp [hgrown]
    · intro G hG
      by_cases hG1 : G = 1
      · right
        simp_all
      · left
        simp_all
    · simp

section

variable (h : Agrees s r) (hinv : GroupsInv r chain) (hnodup : (chain.map CBlockIndex.hash).Nodup)
  (hheight : ∀ c ∈ chain, c.nHeight ≤ index.nHeight)
include h hinv hnodup hheight

/-- A chain that has a group already: its newest group is extended, or the next
one is opened. -/
lemma placeMints_later (hpos : 1 ≤ latestId chain) :
    ∃ s', s.placeMints index chain mints = some s' ∧ Placed s r s' index chain mints := by
  obtain ⟨info, hinfo⟩ := hinv.latest_some hpos
  have hlatest : s.latestCoinId = latestId chain := by rw [h.latest_eq, hinv.latest_eq]
  have hmax : max 1 (latestId chain) = latestId chain := by omega
  have hs : s.coinGroups (latestId chain) = some info := h.group_of_some hinfo
  have hset : update s.coinGroups (latestId chain) (some info) = s.coinGroups := by
    rw [← hs, Function.update_eq_self]
  obtain ⟨post, own, carried, pre, hshape⟩ := hinv.shape _ info hinfo
  obtain ⟨seg, c, -, hfirst⟩ := hshape.segment
  obtain ⟨last, rest, hlast, hbelow, -, -⟩ := hshape.countBack_below hnodup
  obtain ⟨b, own', hown, -, -⟩ := hshape.newest
  rw [hown, cons_append] at hbelow
  have hb : b.nHeight ≤ index.nHeight := by
    refine hheight b ?_
    rw [hshape.chain_eq, hown]
    simp
  by_cases hfit : info.nCoins + mints.length ≤ s.maxCoinInGroup
  · refine ⟨_, by simp [placeMints, hlatest, hmax, hs, setGroup, hset, hfit,
      hshape.nCoins_ne_zero, hfirst, hlast, hbelow, hb]; rfl, ?_⟩
    constructor
    · left
      simp [hlatest, hmax, hs, hfit]
    · simp [r.grownGroup_of_some hinfo hfirst, hfirst]
    · intro G hG
      left
      exact update_of_ne hG _ _
    · simp
  · obtain ⟨⟨n, first⟩, hcount⟩ : ∃ p, s.countLastNCoins chain (latestId chain)
        s.startGroupSize = p := ⟨_, rfl⟩
    have hnone : r.coinGroups (latestId chain + 1) = none := by
      rw [Option.eq_none_iff_forall_ne_some]
      intro info' hinfo'
      have := hinv.bounds _ info' hinfo'
      omega
    have hgrown : (if 1 < latestId chain + 1 then
        r.countLastNCoins chain (latestId chain + 1 - 1) r.startGroupSize
        else (0, none)) = (n, first) := by
      rw [if_pos (by omega), add_sub_cancel_right, ← h.countLastNCoins_eq,
        ← h.startGroupSize_eq, hcount]
    have hcount' : countLastNCoins { s with latestCoinId := latestId chain } chain
        (latestId chain) s.startGroupSize = (n, first) := hcount
    refine ⟨_, by simp [placeMints, hlatest, hmax, hs, setGroup, hset, hfit, hcount']; rfl, ?_⟩
    constructor
    · right
      simp [hlatest, hmax, hs]
      omega
    · simp [r.grownGroup_of_none hnone hgrown]
    · intro G hG
      left
      exact update_of_ne hG _ _
    · simp

lemma placeMints_spec :
    ∃ s', s.placeMints index chain mints = some s' ∧ Placed s r s' index chain mints := by
  rcases hinv.latest_nonneg.eq_or_lt with hzero | hpos
  · exact placeMints_first h hinv hzero.symm
  · exact placeMints_later h hinv hnodup hheight (by omega)

end

lemma foldl_pushMint [DecidableEq Coin] (s : CSparkState Coin Tag) (index : CBlockIndex Coin Tag)
    (mints : List Coin) (hne : mints ≠ []) : mints.foldl (fun (s, index) mint =>
        (addMint s mint ⟨s.latestCoinId, index.nHeight⟩, index.pushMint s.latestCoinId mint))
      (s, index) =
    (s.addMints mints ⟨s.latestCoinId, index.nHeight⟩,
      { index with
        sparkMintedCoins := index.sparkMintedCoins.insert s.latestCoinId
          ((index.sparkMintedCoins[s.latestCoinId]?).getD [] ++ mints) }) := by
  induction mints generalizing s index with
  | nil => exact absurd rfl hne
  | cons mint mints ih =>
    have hlatest : (s.addMint mint ⟨s.latestCoinId, index.nHeight⟩).latestCoinId =
        s.latestCoinId := s.addMints_latestCoinId [mint] _
    rcases eq_or_ne mints [] with rfl | hmints
    · rfl
    · rw [foldl_cons, ih _ _ hmints, hlatest]
      refine Prod.ext rfl ?_
      simp only [CBlockIndex.pushMint, CBlockIndex.mk.injEq, true_and, and_true]
      apply Std.ExtTreeMap.ext_getElem?
      intro k
      by_cases hk : s.latestCoinId = k
      · simp [hk]
      · simp [Std.ExtTreeMap.getElem?_insert, hk]

lemma addMintsToStateAndBlockIndex_spec [DecidableEq Coin] (h : Agrees s r)
    (hinv : GroupsInv r chain) (hnodup : (chain.map CBlockIndex.hash).Nodup)
    (hheight : ∀ c ∈ chain, c.nHeight ≤ index.nHeight)
    (hempty : index.sparkMintedCoins = ∅) (hne : mints ≠ []) :
    ∃ p, Placed s r p index chain mints ∧ s.addMintsToStateAndBlockIndex index chain mints =
        some (p.addMints mints ⟨p.latestCoinId, index.nHeight⟩,
          { index with
            sparkMintedCoins :=
              (∅ : Std.ExtTreeMap Int (List Coin)).insert p.latestCoinId mints }) := by
  obtain ⟨p, hp, hplaced⟩ := placeMints_spec h hinv hnodup hheight
  refine ⟨p, hplaced, ?_⟩
  rw [addMintsToStateAndBlockIndex, hp, Option.map_some, foldl_pushMint p index mints hne, hempty]
  simp

end CSparkState

section

variable {id : Int} {first : BlockPtr} {last : Uint256} {l l' : List (CBlockIndex Coin Tag)}

lemma prevGroupCount_append (h : ∀ b ∈ l, countCoinInBlock b id = 0)
    (h' : ∀ b ∈ l, countCoinInBlock b (id - 1) = 0) :
    prevGroupCount id (l ++ l') = prevGroupCount id l' := by
  induction l with
  | nil => rfl
  | cons b l ih =>
    rw [forall_mem_cons] at h h'
    simp [prevGroupCount, h.1, h'.1, ih h.2 h'.2]

lemma rollBackLastBlock_eq_none (h : ∀ b ∈ l, b.sparkMintedCoins.contains id = false) :
    rollBackLastBlock id first last l = none := by
  induction l generalizing last with
  | nil => rfl
  | cons b l ih =>
    rw [forall_mem_cons] at h
    simp [rollBackLastBlock, h.1, ih h.2]

lemma rollBackLastBlock_append {b : CBlockIndex Coin Tag}
    (h : ∀ c ∈ l, c.sparkMintedCoins.contains id = false ∧ some c.hash ≠ first)
    (hlast : some last ≠ first) (hb : b.sparkMintedCoins.contains id = true) :
    rollBackLastBlock id first last (l ++ b :: l') = some b.hash := by
  induction l generalizing last with
  | nil => simp [rollBackLastBlock, hlast, hb]
  | cons c l ih =>
    rw [forall_mem_cons] at h
    simp [rollBackLastBlock, hlast, h.1.1, ih h.2 h.1.2]

end

namespace CSparkState

variable [DecidableEq Coin] [DecidableEq Tag] (s : CSparkState Coin Tag)
  {b : CBlockIndex Coin Tag} {chain : List (CBlockIndex Coin Tag)} {id : Int}
  {coins : List Coin}

lemma removeBlock_of_noMints (h : b.NoMints) :
    s.removeBlock b chain = some (s.removeSpends b.spentLTags) := by
  rw [removeBlock, h.toList]
  rfl

lemma removeBlock_of_hasMints (h : b.HasMints id coins) :
    s.removeBlock b chain = (removeBlockCoins b chain s (id, coins)).map fun s =>
      (s.removeMints coins id b.nHeight).removeSpends b.spentLTags := by
  rw [removeBlock, h.toList]
  simp only [foldlM_cons, foldlM_nil, foldl_cons, List.foldl_nil, bind_pure]

end CSparkState

lemma WellPlaced.contains_eq {chain : List (CBlockIndex Coin Tag)} (h : WellPlaced chain)
    {b : CBlockIndex Coin Tag} (hb : b ∈ chain) (id : Int) :
    b.sparkMintedCoins.contains id = decide (countCoinInBlock b id ≠ 0) := by
  induction chain with
  | nil => cases hb
  | cons c chain ih =>
    obtain ⟨hchain, -, -, hc⟩ := h
    rcases mem_cons.mp hb with rfl | hb
    · rcases hc with hc | ⟨id', coins, hc, -⟩
      · rw [hc.countCoinInBlock]
        simp [hc.eq_empty]
      · rw [Std.ExtTreeMap.contains_eq_isSome_getElem?, hc.getElem?, hc.countCoinInBlock]
        by_cases hid : id' = id
        · simp [hid, hc.ne_nil]
        · simp [hid]
    · exact ih hchain hb

namespace Agrees

variable [DecidableEq Coin] [DecidableEq Tag] {s r p : CSparkState Coin Tag}
  {chain : List (CBlockIndex Coin Tag)} {index b : CBlockIndex Coin Tag} {mints : List Coin}

lemma connect (h : Agrees s r) (hinv : GroupsInv r chain)
    (hp : CSparkState.Placed s r p index chain mints) (hb : b.HasMints p.latestCoinId mints)
    (hhash : b.hash = index.hash) :
    Agrees (p.addMints mints ⟨p.latestCoinId, b.nHeight⟩) (r.addBlock b chain) := by
  obtain ⟨hmax, hstart, hminted, -, -⟩ := hp.frame
  replace hp := hp.of_hash_eq hhash
  have hlatest : r.latestCoinId ≤ p.latestCoinId := by
    rw [← h.latest_eq]
    rcases hp.fits_or_opens with ⟨h1, -⟩ | ⟨h1, -⟩ <;> omega
  constructor
  · rw [addMints_maxCoinInGroup, hmax, h.maxCoinInGroup_eq, r.addBlock_of_hasMints hb]
    simp [CSparkState.setGroup]
  · simp [hstart, h.startGroupSize_eq]
  · rw [r.addBlock_latestCoinId hb]
    simp
  · funext c
    rw [r.addBlock_mintedCoins hb, addMints_mintedCoins, hminted, h.minted_eq]
  · intro G
    rw [r.addBlock_coinGroups hb, r.addBlock_latestCoinId hb]
    simp only [addMints_coinGroups]
    by_cases hG : G = p.latestCoinId
    · left
      rw [hG, hp.group_eq, update_self]
    · rw [update_of_ne hG]
      rcases hp.groups_eq G hG with he | ⟨rfl, htwo, hzero, he⟩
      · rw [he]
        rcases h.groups_eq G with he' | ⟨h1, hlt, hs', hr⟩
        · exact Or.inl he'
        · exact Or.inr ⟨h1, by omega, hs', hr⟩
      · right
        refine ⟨rfl, by omega, he, ?_⟩
        rw [Option.eq_none_iff_forall_ne_some]
        intro info hinfo
        have hbounds := hinv.bounds 1 info hinfo
        rw [← hinv.latest_eq, ← h.latest_eq, hzero] at hbounds
        omega

section

omit [DecidableEq Coin] [DecidableEq Tag]

lemma removeBlockCoins_of_some {id : Int} {coins : List Coin} {info : SparkCoinGroupInfo}
    (hwp : WellPlaced (b :: chain)) (hinv : GroupsInv r chain) (hb : b.HasMints id coins)
    (hr : r.coinGroups id = some info)
    (hs : s.coinGroups id = some (r.grownGroup b chain id coins.length)) :
    CSparkState.removeBlockCoins b chain s (id, coins) = some (s.setGroup id info) := by
  obtain ⟨post, own, carried, pre, hshape⟩ := hinv.shape id info hr
  obtain ⟨seg, c, hseg, hfirst⟩ := hshape.segment
  obtain ⟨d, own', hown, hd, hlast⟩ := hshape.newest
  rw [r.grownGroup_of_some hr hfirst] at hs
  have hprev : prevGroupCount id chain = 0 := by
    rw [hshape.chain_eq, prevGroupCount_append (fun c hc => hshape.post_count c hc id le_rfl)
      (fun c hc => hshape.post_count c hc (id - 1) (by omega)), hown]
    simp [prevGroupCount, hd]
  have hne : coins.length ≠ 0 := by simpa using hb.ne_nil
  have hc : c ∈ own ++ carried := by rw [hseg]; simp
  have hroll : rollBackLastBlock id info.firstBlock b.hash chain = some d.hash := by
    have hchain : chain = post ++ d :: (own' ++ (carried ++ pre)) := by
      rw [hshape.chain_eq, hown]
      rfl
    have hnodup := hwp.1.nodup
    have hcmem : c ∈ own ++ (carried ++ pre) := by
      simp only [mem_append] at hc ⊢
      tauto
    have hdc : d.sparkMintedCoins.contains id = true := by
      rw [hwp.1.contains_eq (by rw [hchain]; simp)]
      simpa using hd
    rw [hchain]
    apply rollBackLastBlock_append _ _ hdc
    · intro e he
      have hemem : e ∈ chain := by rw [hchain]; exact mem_append_left _ he
      refine ⟨?_, ?_⟩
      · rw [hwp.1.contains_eq hemem, hshape.post_count e he id le_rfl]
        simp
      · rw [hfirst, ne_eq, Option.some.injEq]
        rw [hshape.chain_eq, map_append, nodup_append] at hnodup
        exact hnodup.2.2 _ (mem_map_of_mem he) _ (mem_map_of_mem hcmem)
    · rw [hfirst, ne_eq, Option.some.injEq]
      refine Ne.symm (hwp.2.1 c ?_)
      rw [hshape.chain_eq]
      exact mem_append_right _ hcmem
  simp only [CSparkState.removeBlockCoins, hs, hne, if_false, hprev, hroll]
  have hinfo : ({ info with lastBlock := some d.hash } : SparkCoinGroupInfo) = info := by
    rw [← hlast]
  simp [hshape.nCoins_ne_zero, hinfo]

/-- Rolling back a block that opened its group: the group is erased when the block is
recognised as its first one, and otherwise the search for an older block of the group
fails an assertion. -/
lemma removeBlockCoins_of_none {id : Int} {coins : List Coin} {n : Nat} {first : BlockPtr}
    (hwp : WellPlaced chain) (hinv : GroupsInv r chain) (hb : b.HasMints id coins)
    (hr : r.coinGroups id = none) (hid : id ≤ 1 → n = 0)
    (hs : s.coinGroups id = some ⟨first, some b.hash, n + coins.length⟩) :
    CSparkState.removeBlockCoins b chain s (id, coins) =
      if id ≤ 1 ∨ 0 < prevGroupCount id chain ∧
        sizeSub n (prevGroupCount id chain) < s.startGroupSize then
        some { s with
          coinGroups := update s.coinGroups id none
          latestCoinId := s.latestCoinId - 1 }
      else none := by
  have hne : coins.length ≠ 0 := by simpa using hb.ne_nil
  have hroll : rollBackLastBlock id first b.hash chain = none := by
    apply rollBackLastBlock_eq_none
    intro c hc
    rw [hwp.contains_eq hc, hinv.none_count id hr c hc]
    simp
  simp only [CSparkState.removeBlockCoins, hs, hne, if_false, hroll]
  by_cases hone : id ≤ 1
  · simp [hone, hid hone]
  · simp [hone, not_le.mp hone]

lemma prevGroupCount_of_zero (hinv : GroupsInv r chain) (hzero : latestId chain = 0)
    {id : Int} (hid : 1 < id) : prevGroupCount id chain = 0 := by
  have h0 : ∀ i, 1 ≤ i → ∀ c ∈ chain, countCoinInBlock c i = 0 := by
    intro i hi c hc
    exact hinv.above c hc i (by omega)
  rw [← append_nil chain, prevGroupCount_append (h0 id (by omega)) (h0 (id - 1) (by omega))]
  rfl

lemma removeBlockCoins_spec {s₁} {id : Int} {coins}
    (hwp : WellPlaced (b :: chain)) (hinv : GroupsInv r chain) (hb : b.HasMints id coins)
    (hid : id = max 1 (latestId chain) ∨ id = max 1 (latestId chain) + 1)
    (hlatest : s.latestCoinId = id)
    (hgroup : s.coinGroups id = some (r.grownGroup b chain id coins.length))
    (hother : ∀ G, G ≠ id → s.coinGroups G = r.coinGroups G ∨
      G = 1 ∧ 1 < id ∧ s.coinGroups G = some {} ∧ r.coinGroups G = none)
    (hs₁ : CSparkState.removeBlockCoins b chain s (id, coins) = some s₁) :
    s₁ = { s with coinGroups := s₁.coinGroups, latestCoinId := r.latestCoinId } ∧
      ∀ G, s₁.coinGroups G = r.coinGroups G ∨
        G = 1 ∧ 1 < r.latestCoinId ∧ s₁.coinGroups G = some {} ∧ r.coinGroups G = none := by
  have hnonneg := hinv.latest_nonneg
  cases hr : r.coinGroups id with
  | some info =>
    have hrl : r.latestCoinId = id := by
      have := hinv.bounds id info hr
      rw [hinv.latest_eq]
      omega
    rw [removeBlockCoins_of_some hwp hinv hb hr hgroup, Option.some.injEq] at hs₁
    subst hs₁
    refine ⟨by rw [hrl, ← hlatest]; rfl, fun G => ?_⟩
    by_cases hG : G = id
    · left
      rw [hG, hr]
      exact update_self _ _ _
    · rw [hrl, show (s.setGroup id info).coinGroups G = s.coinGroups G from
        update_of_ne hG _ _]
      exact hother G hG
  | none =>
    obtain ⟨⟨n, first⟩, hcount⟩ : ∃ p, (if 1 < id then
        r.countLastNCoins chain (id - 1) r.startGroupSize else (0, none)) = p := ⟨_, rfl⟩
    have hn : id ≤ 1 → n = 0 := by
      intro hle
      rw [if_neg (by omega)] at hcount
      exact (Prod.mk.inj hcount).1.symm
    rw [r.grownGroup_of_none hr hcount] at hgroup
    rw [removeBlockCoins_of_none hwp.1 hinv hb hr hn hgroup] at hs₁
    have hrl : r.latestCoinId = id - 1 := by
      rw [hinv.latest_eq]
      rcases hnonneg.eq_or_lt with hzero | hpos
      · by_cases hone : id ≤ 1
        · omega
        · rw [prevGroupCount_of_zero hinv hzero.symm (by omega)] at hs₁
          simp [hone] at hs₁
      · rcases hid with hid | hid
        · obtain ⟨info, hinfo⟩ := hinv.latest_some (by omega)
          rw [show latestId chain = id by omega, hr] at hinfo
          cases hinfo
        · omega
    split at hs₁
    case isFalse => cases hs₁
    case isTrue =>
      rw [Option.some.injEq] at hs₁
      subst hs₁
      refine ⟨by rw [hrl, ← hlatest], fun G => ?_⟩
      by_cases hG : G = id
      · left
        rw [hG, hr]
        exact update_self _ _ _
      · change update s.coinGroups id none G = _ ∨ _ ∧ _ ∧ update s.coinGroups id none G = _ ∧ _
        rw [update_of_ne hG]
        rcases hother G hG with he | ⟨rfl, hlt, he, hnone⟩
        · exact Or.inl he
        · refine Or.inr ⟨rfl, ?_, he, hnone⟩
          by_contra hle
          obtain ⟨info, hinfo⟩ := hinv.latest_some (by rw [← hinv.latest_eq]; omega)
          rw [← hinv.latest_eq, show r.latestCoinId = 1 by omega, hnone] at hinfo
          cases hinfo

end

lemma disconnect (h : Agrees s (r.addBlock b chain)) (hwp : WellPlaced (b :: chain))
    (hinv : GroupsInv r chain)
    (hminted : ∀ c info, r.mintedCoins c = some info → info.nHeight < b.nHeight)
    (hs' : s.removeBlock b chain = some s') : Agrees s' r := by
  rcases hwp.2.2.2 with hb | ⟨id, coins, hb, hid⟩
  · rw [s.removeBlock_of_noMints hb, Option.some.injEq] at hs'
    subst hs'
    rw [r.addBlock_of_noMints hb] at h
    obtain ⟨h1, h2, h3, h4, h5⟩ := h
    exact ⟨by simpa using h1, by simpa using h2, by simpa using h3, by simpa using h4,
      by simpa using h5⟩
  · rw [s.removeBlock_of_hasMints hb, Option.map_eq_some_iff] at hs'
    obtain ⟨s₁, hs₁, rfl⟩ := hs'
    have hgroup : s.coinGroups id = some (r.grownGroup b chain id coins.length) := by
      rw [h.group_of_latest_le (by rw [r.addBlock_latestCoinId hb]), r.addBlock_coinGroups hb,
        update_self]
    have hother : ∀ G, G ≠ id → s.coinGroups G = r.coinGroups G ∨
        G = 1 ∧ 1 < id ∧ s.coinGroups G = some {} ∧ r.coinGroups G = none := by
      intro G hG
      have := h.groups_eq G
      rwa [r.addBlock_coinGroups hb, r.addBlock_latestCoinId hb, update_of_ne hG] at this
    have hlatest : s.latestCoinId = id := by rw [h.latest_eq, r.addBlock_latestCoinId hb]
    obtain ⟨heq, hgroups⟩ := removeBlockCoins_spec hwp hinv hb hid hlatest hgroup hother hs₁
    have hmaxr : s.maxCoinInGroup = r.maxCoinInGroup := by
      rw [h.maxCoinInGroup_eq, r.addBlock_of_hasMints hb]
      simp [CSparkState.setGroup]
    have hstartr : s.startGroupSize = r.startGroupSize := by
      rw [h.startGroupSize_eq, addBlock_startGroupSize]
    refine ⟨?_, ?_, ?_, ?_, ?_⟩
    · rw [removeSpends_maxCoinInGroup, removeMints_maxCoinInGroup, heq, hmaxr]
    · rw [removeSpends_startGroupSize, removeMints_startGroupSize, heq, hstartr]
    · rw [removeSpends_latestCoinId, removeMints_latestCoinId, heq]
    · funext c
      have hc : s₁.mintedCoins c =
          (r.mintedCoins c).or (if c ∈ coins then some ⟨id, b.nHeight⟩ else none) := by
        rw [heq, h.minted_eq, r.addBlock_mintedCoins hb]
      rw [removeSpends_mintedCoins, removeMints_mintedCoins, hc]
      cases hrc : r.mintedCoins c with
      | some info =>
        have := hminted c info hrc
        have hne : info ≠ ⟨id, b.nHeight⟩ := by
          rintro rfl
          exact lt_irrefl _ this
        simp [hne]
      | none => by_cases hmem : c ∈ coins <;> simp [hmem]
    · simpa using hgroups

end Agrees

end Firo.Spark
