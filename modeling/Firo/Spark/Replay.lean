import Firo.Spark.Groups

/-! `BuildSparkStateFromIndex` and the groups it computes. A well placed chain fixes the groups, so
every state that agrees with the replay of its chain has groups of the shape of `GroupShape`. -/
namespace Firo.Spark

open Firo.Lib Function CSparkState

variable {Coin Tag : Type}

/-- The loop of `BuildSparkStateFromIndex`, from the oldest block to the tip. -/
def buildSparkStateFromIndex [DecidableEq Coin] [DecidableEq Tag]
    (maxCoinInGroup startGroupSize : Nat) : List (CBlockIndex Coin Tag) → CSparkState Coin Tag
  | [] => { maxCoinInGroup, startGroupSize }
  | index :: chain =>
    (buildSparkStateFromIndex maxCoinInGroup startGroupSize chain).addBlock index chain

namespace CSparkState

variable [DecidableEq Coin] [DecidableEq Tag] (s : CSparkState Coin Tag)
  {b : CBlockIndex Coin Tag} {chain : List (CBlockIndex Coin Tag)} {id : Int}
  {coins : List Coin}

lemma addBlock_of_noMints (h : b.NoMints) : s.addBlock b chain = s.addSpends b.spentLTags := by
  unfold addBlock
  rw [h.toList]
  rfl

lemma addBlock_of_hasMints (h : b.HasMints id coins) : s.addBlock b chain =
      (({ s.setGroup id (s.grownGroup b chain id coins.length) with
        latestCoinId := id } : CSparkState Coin Tag).addMints coins
          ⟨id, b.nHeight⟩).addSpends b.spentLTags := by
  have hne : coins.isEmpty = false := by simpa using h.ne_nil
  unfold addBlock
  rw [h.toList]
  simp [addBlockCoins, hne]

lemma addBlock_coinGroups (h : b.HasMints id coins) : (s.addBlock b chain).coinGroups =
      Function.update s.coinGroups id (some (s.grownGroup b chain id coins.length)) := by
  rw [addBlock_of_hasMints s h]
  simp [setGroup]

lemma addBlock_latestCoinId (h : b.HasMints id coins) : (s.addBlock b chain).latestCoinId = id := by
  rw [addBlock_of_hasMints s h]
  simp

@[simp] lemma addBlock_startGroupSize : (s.addBlock b chain).startGroupSize = s.startGroupSize := by
  have hstep : ∀ (t : CSparkState Coin Tag) entry,
      (addBlockCoins b chain t entry).startGroupSize = t.startGroupSize := by
    rintro t ⟨id, coins⟩
    simp only [addBlockCoins]
    split <;> simp [setGroup]
  unfold addBlock
  rw [addSpends_startGroupSize]
  exact foldl_keeps startGroupSize hstep _ s

@[simp] lemma addBlock_maxCoinInGroup : (s.addBlock b chain).maxCoinInGroup = s.maxCoinInGroup := by
  have hstep : ∀ (t : CSparkState Coin Tag) entry,
      (addBlockCoins b chain t entry).maxCoinInGroup = t.maxCoinInGroup := by
    rintro t ⟨id, coins⟩
    simp only [addBlockCoins]
    split <;> simp [setGroup]
  unfold addBlock
  rw [addSpends_maxCoinInGroup]
  exact foldl_keeps maxCoinInGroup hstep _ s

lemma addBlock_mintedCoins (h : b.HasMints id coins) (c) : (s.addBlock b chain).mintedCoins c =
      (s.mintedCoins c).or (if c ∈ coins then some ⟨id, b.nHeight⟩ else none) := by
  rw [addBlock_of_hasMints s h]
  simp [addMints_mintedCoins, setGroup]

section

omit [DecidableEq Coin] [DecidableEq Tag]

lemma grownGroup_of_some {info} {first} {n : Nat} (h : s.coinGroups id = some info)
    (hfirst : info.firstBlock = some first) : s.grownGroup b chain id n =
      { info with lastBlock := some b.hash, nCoins := info.nCoins + n } := by
  simp [grownGroup, h, hfirst]

lemma grownGroup_of_none {coins n : Nat} {first} (h : s.coinGroups id = none)
    (hcount : (if 1 < id then s.countLastNCoins chain (id - 1) s.startGroupSize
      else (0, none)) = (coins, first)) :
    s.grownGroup b chain id n = ⟨first.or (some b.hash), some b.hash, coins + n⟩ := by
  split at hcount
  case isTrue hid => simp [grownGroup, h, hid, hcount]
  case isFalse hid =>
    cases hcount
    simp [grownGroup, h, hid]

end

end CSparkState

variable {chain : List (CBlockIndex Coin Tag)}

lemma latestId_cons_of_noMints {b : CBlockIndex Coin Tag} (h : b.NoMints) :
    latestId (b :: chain) = latestId chain := by
  simp [latestId, h.toList]

lemma latestId_cons_of_hasMints {b : CBlockIndex Coin Tag} {id : Int} {coins}
    (h : b.HasMints id coins) : latestId (b :: chain) = id := by
  simp [latestId, h.toList]

structure GroupsInv (s : CSparkState Coin Tag) (chain : List (CBlockIndex Coin Tag)) :
    Prop where
  latest_eq : s.latestCoinId = latestId chain
  latest_nonneg : 0 ≤ latestId chain
  above : ∀ b ∈ chain, ∀ id, latestId chain < id → countCoinInBlock b id = 0
  none_count : ∀ G, s.coinGroups G = none → ∀ b ∈ chain, countCoinInBlock b G = 0
  bounds : ∀ G info, s.coinGroups G = some info → 1 ≤ G ∧ G ≤ latestId chain
  latest_some : 1 ≤ latestId chain → ∃ info, s.coinGroups (latestId chain) = some info
  shape : ∀ G info, s.coinGroups G = some info → ∃ post own carried pre,
    GroupShape s.startGroupSize chain G info post own carried pre

namespace GroupsInv

variable [DecidableEq Coin] [DecidableEq Tag] {s : CSparkState Coin Tag}
  {b : CBlockIndex Coin Tag} {chain : List (CBlockIndex Coin Tag)} {id : Int}
  {coins : List Coin}

lemma cons_noMints (h : GroupsInv s chain) (hb : b.NoMints) :
    GroupsInv (s.addBlock b chain) (b :: chain) := by
  rw [s.addBlock_of_noMints hb]
  constructor
  · simpa [latestId_cons_of_noMints hb] using h.latest_eq
  · simpa [latestId_cons_of_noMints hb] using h.latest_nonneg
  · rw [latestId_cons_of_noMints hb]
    exact List.forall_mem_cons.mpr ⟨fun id _ => hb.countCoinInBlock id, h.above⟩
  · intro G hG
    rw [addSpends_coinGroups] at hG
    exact List.forall_mem_cons.mpr ⟨hb.countCoinInBlock G, h.none_count G hG⟩
  · simpa [latestId_cons_of_noMints hb] using h.bounds
  · simpa [latestId_cons_of_noMints hb] using h.latest_some
  · intro G info hG
    rw [addSpends_coinGroups] at hG
    obtain ⟨post, own, carried, pre, hs⟩ := h.shape G info hG
    rw [CSparkState.addSpends_startGroupSize]
    exact ⟨b :: post, own, carried, pre, hs.cons_post fun id _ => hb.countCoinInBlock id⟩

lemma cons_of_shape (h : GroupsInv s chain) (hb : b.HasMints id coins) (hid : 1 ≤ id)
    (hlatest : latestId chain ≤ id)
    (hshape : ∃ post own carried pre, GroupShape s.startGroupSize (b :: chain) id
      (s.grownGroup b chain id coins.length) post own carried pre) :
    GroupsInv (s.addBlock b chain) (b :: chain) := by
  have hgroups : (s.addBlock b chain).coinGroups =
      Function.update s.coinGroups id (some (s.grownGroup b chain id coins.length)) :=
    s.addBlock_coinGroups hb
  constructor
  · rw [s.addBlock_latestCoinId hb, latestId_cons_of_hasMints hb]
  · rw [latestId_cons_of_hasMints hb]
    omega
  · rw [latestId_cons_of_hasMints hb]
    refine List.forall_mem_cons.mpr ⟨?_, fun c hc i hi => h.above c hc i (by omega)⟩
    intro i hi
    rw [hb.countCoinInBlock, if_neg (by omega)]
  · intro G hG
    rw [hgroups] at hG
    by_cases hGid : G = id
    · subst hGid
      simp at hG
    · rw [update_of_ne hGid] at hG
      refine List.forall_mem_cons.mpr ⟨?_, h.none_count G hG⟩
      rw [hb.countCoinInBlock, if_neg (Ne.symm hGid)]
  · intro G info hG
    rw [hgroups] at hG
    rw [latestId_cons_of_hasMints hb]
    by_cases hGid : G = id
    · omega
    · rw [update_of_ne hGid] at hG
      have := h.bounds G info hG
      omega
  · intro _
    rw [latestId_cons_of_hasMints hb, hgroups]
    exact ⟨_, update_self _ _ _⟩
  · intro G info hG
    rw [hgroups] at hG
    rw [CSparkState.addBlock_startGroupSize]
    by_cases hGid : G = id
    · subst hGid
      rw [update_self, Option.some.injEq] at hG
      rwa [← hG]
    · rw [update_of_ne hGid] at hG
      obtain ⟨post, own, carried, pre, hs⟩ := h.shape G info hG
      refine ⟨b :: post, own, carried, pre, hs.cons_post fun i hi => ?_⟩
      have := h.bounds G info hG
      rw [hb.countCoinInBlock, if_neg (by omega)]

omit [DecidableEq Coin] [DecidableEq Tag] in
lemma countLastNCoins_of_zero (h : GroupsInv s chain) (hzero : latestId chain = 0) (G : Int)
    (required : Nat) : s.countLastNCoins chain G required = (0, none) := by
  have hnone : s.coinGroups G = none := by
    rw [Option.eq_none_iff_forall_ne_some]
    intro info hinfo
    have := h.bounds G info hinfo
    omega
  simp [countLastNCoins, hnone]

lemma cons_hasMints (h : GroupsInv s chain) (hnodup : (chain.map CBlockIndex.hash).Nodup)
    (hb : b.HasMints id coins)
    (hid : id = max 1 (latestId chain) ∨ id = max 1 (latestId chain) + 1) :
    GroupsInv (s.addBlock b chain) (b :: chain) := by
  have hnonneg := h.latest_nonneg
  refine h.cons_of_shape hb (by omega) (by omega) ?_
  cases hG : s.coinGroups id with
  | some info =>
    have hbounds := h.bounds id info hG
    have hlatest : id = latestId chain := by omega
    obtain ⟨post, own, carried, pre, hs⟩ := h.shape id info hG
    obtain ⟨seg, c, -, hfirst⟩ := hs.segment
    rw [s.grownGroup_of_some hG hfirst]
    refine ⟨_, _, _, _, hs.extend hb fun c hc i hi => h.above c hc i (by omega)⟩
  | none =>
    rcases hnonneg.eq_or_lt with hzero | hpos
    · have hcount : (if 1 < id then s.countLastNCoins chain (id - 1) s.startGroupSize
          else (0, none)) = (0, none) := by
        rw [h.countLastNCoins_of_zero hzero.symm, ite_self]
      rw [s.grownGroup_of_none hG hcount, zero_add]
      have hprev : ∀ c ∈ chain, countCoinInBlock c (id - 1) = 0 := by
        apply h.none_count
        rw [Option.eq_none_iff_forall_ne_some]
        intro info hinfo
        have := h.bounds _ info hinfo
        omega
      exact ⟨_, _, _, _, GroupShape.openFresh hb (fun c hc i hi => h.above c hc i (by omega))
        (.inr hprev)⟩
    · obtain ⟨info, hinfo⟩ := h.latest_some (by omega)
      have hnext : id = latestId chain + 1 := by
        rcases hid with hid | hid
        · rw [show id = latestId chain by omega, hinfo] at hG
          cases hG
        · omega
      subst hnext
      obtain ⟨post, own, carried, pre, hs⟩ := h.shape _ info hinfo
      obtain ⟨⟨n, first⟩, hcount⟩ : ∃ r, s.countLastNCoins chain (latestId chain)
          s.startGroupSize = r := ⟨_, rfl⟩
      have hback : ∀ last, info.lastBlock = some last → countBack (latestId chain)
          s.startGroupSize (below CBlockIndex.hash last chain) 0 none = (n, first) := by
        intro last hlast
        rw [← hcount]
        simp only [countLastNCoins, hinfo]
        obtain ⟨f, l, k⟩ := info
        simp only at hlast
        subst hlast
        rfl
      obtain ⟨carried', pre', hopen, -⟩ := hs.openNext hnodup hb h.above hback
      refine ⟨[], [b], carried', pre', ?_⟩
      have hgrown : (if 1 < latestId chain + 1 then
          s.countLastNCoins chain (latestId chain + 1 - 1) s.startGroupSize
          else (0, none)) = (n, first) := by
        rw [if_pos (by omega), add_sub_cancel_right, hcount]
      rw [s.grownGroup_of_none hG hgrown]
      exact hopen

end GroupsInv

lemma groupsInv_build [DecidableEq Coin] [DecidableEq Tag] (maxCoinInGroup startGroupSize : Nat)
    (h : WellPlaced chain) :
    GroupsInv (buildSparkStateFromIndex maxCoinInGroup startGroupSize chain) chain := by
  induction chain with
  | nil =>
    constructor <;> simp [buildSparkStateFromIndex, latestId]
  | cons b chain ih =>
    obtain ⟨hchain, -, -, hmints⟩ := h
    have ih := ih hchain
    rcases hmints with hb | ⟨id, coins, hb, hid⟩
    · exact ih.cons_noMints hb
    · exact ih.cons_hasMints hchain.nodup hb hid

end Firo.Spark
