import Firo.Spark.History

/-! A restart replays the block index. The live state applies the linking tags of a block before its
mints, the replay after them, and `AddSpend` records a tag only for a group that has a recorded
mint. The two agree exactly as long as no block spends from a group whose first recorded mint is its
own. -/
namespace Firo.Spark

open Firo.Lib CSparkState

variable {Coin Tag : Type}

/-- The replay of the chain gives the groups, the newest id, the minted coins and the
linking tags of the live state. -/
structure RestartAgrees [DecidableEq Coin] [DecidableEq Tag] (s : CSparkState Coin Tag)
    (chain : List (CBlockIndex Coin Tag)) : Prop where
  coinGroups : (s.replay chain).coinGroups = s.coinGroups
  latestCoinId : (s.replay chain).latestCoinId = s.latestCoinId
  mintedCoins : (s.replay chain).mintedCoins = s.mintedCoins
  usedLTags : (s.replay chain).usedLTags = s.usedLTags

/-- A block's mints give the group `G` a recorded mint. -/
def CSparkState.MintsInto (s : CSparkState Coin Tag) (mints : List Coin) (G : Int) : Prop :=
  G = s.mintGroup mints.length ∧ ∃ c ∈ mints, s.mintedCoins c = none

/-- Each linking tag of the block spends from a group that has a recorded mint, or that
gets none from the block. -/
def CSparkState.SpendsRecorded (s : CSparkState Coin Tag) (lTags : List (Tag × Int))
    (mints : List Coin) : Prop :=
  ∀ lTag ∈ lTags, (s.mintMetaInfo lTag.2).isSome ∨ ¬ s.MintsInto mints lTag.2

/-- Blocks with no more mints than a group holds, whose spends are recorded. -/
def ConnectsRecorded (maxCoinInGroup : Nat) : ChainState Coin Tag → ChainAction Coin Tag → Prop
  | (s, _), .connect _ lTags mints =>
    mints.length ≤ maxCoinInGroup ∧ s.SpendsRecorded lTags mints
  | _, .disconnect => False

section

variable [DecidableEq Coin] [DecidableEq Tag] {s s' : CSparkState Coin Tag}
  {chain : List (CBlockIndex Coin Tag)} {index b : CBlockIndex Coin Tag}
  {lTags : List (Tag × Int)} {mints : List Coin}

omit [DecidableEq Coin] in
/-- Two states that record the same groups and tags record the tags of a block alike
exactly if they do so for each group it spends from. -/
lemma addSpends_usedLTags_eq_iff {r : CSparkState Coin Tag} (hused : r.usedLTags = s.usedLTags)
    (hnodup : (lTags.map (·.1)).Nodup) (hfresh : ∀ lTag ∈ lTags, s.isUsedLTag lTag.1 = false) :
    (r.addSpends lTags).usedLTags = (s.addSpends lTags).usedLTags ↔
      ∀ lTag ∈ lTags, (r.mintMetaInfo lTag.2).isSome = (s.mintMetaInfo lTag.2).isSome := by
  have hnone : ∀ lTag ∈ lTags, s.usedLTags lTag.1 = none := by
    intro lTag hmem
    simpa [isUsedLTag] using hfresh lTag hmem
  constructor
  · intro heq lTag hmem
    have ht := congrFun heq lTag.1
    rw [addSpends_usedLTags_of_mem hnodup hmem,
      addSpends_usedLTags_of_mem hnodup hmem, hused, hnone lTag hmem] at ht
    cases hr : (r.mintMetaInfo lTag.2).isSome <;> cases hs : (s.mintMetaInfo lTag.2).isSome <;>
      simp [hr, hs] at ht ⊢
  · intro hmeta
    funext t
    by_cases ht : t ∈ lTags.map (·.1)
    · obtain ⟨lTag, hmem, rfl⟩ := List.mem_map.mp ht
      rw [addSpends_usedLTags_of_mem hnodup hmem,
        addSpends_usedLTags_of_mem hnodup hmem, hmeta lTag hmem, hused]
    · rw [addSpends_usedLTags_of_notMem ht, addSpends_usedLTags_of_notMem ht, hused]

/-- The groups with a recorded mint are the same live and replayed. -/
def MetaAgrees (s : CSparkState Coin Tag) (chain : List (CBlockIndex Coin Tag)) : Prop :=
  ∀ G, ((s.replay chain).mintMetaInfo G).isSome = (s.mintMetaInfo G).isSome

/-- To replay a longer chain is to replay the chain below and to add the block. -/
lemma StateInv.replay_cons (h : StateInv s chain) (hheight : ∀ c ∈ chain, c.nHeight < index.nHeight)
    (hc : s.connect index chain lTags mints = some (s', b)) :
    s'.replay (b :: chain) = (s.replay chain).addBlock b chain := by
  obtain ⟨-, -, -, ⟨-, hs', -⟩ | ⟨p, hp, hs', -⟩⟩ := h.connect_cases hheight hc
  · simp [hs', replay, buildSparkStateFromIndex]
  · obtain ⟨hmax, hstart, -⟩ := hp.frame
    simp [hs', replay, buildSparkStateFromIndex, hmax, hstart]

lemma restart_connect (h : StateInv s chain) (hmeta : MetaAgrees s chain)
    (hused : (s.replay chain).usedLTags = s.usedLTags)
    (hheight : ∀ c ∈ chain, c.nHeight < index.nHeight) (hnodup : (lTags.map (·.1)).Nodup)
    (hfresh : ∀ lTag ∈ lTags, s.isUsedLTag lTag.1 = false)
    (hc : s.connect index chain lTags mints = some (s', b)) : MetaAgrees s' (b :: chain) ∧
      ((s'.replay (b :: chain)).usedLTags = s'.usedLTags ↔ s.SpendsRecorded lTags mints) := by
  unfold MetaAgrees
  rw [h.replay_cons hheight hc]
  obtain ⟨-, hbheight, htags, ⟨rfl, rfl, hb⟩ | ⟨p, hp, rfl, hb⟩⟩ := h.connect_cases hheight hc
  · rw [addBlock_of_noMints _ hb, htags, addSpends_usedLTags_eq_iff hused hnodup hfresh]
    refine ⟨fun G => by simpa using hmeta G, ?_⟩
    simp [SpendsRecorded, MintsInto, hmeta _]
  · obtain ⟨-, -, hminted, hpused, hpmeta⟩ := hp.frame
    rw [addSpends_mintedCoins] at hminted
    rw [addSpends_mintMetaInfo] at hpmeta
    have hid : p.latestCoinId = s.mintGroup mints.length := by
      rw [hp.latestCoinId_eq, mintGroup_addSpends]
    have hlive : ∀ G, ((p.addMints mints ⟨p.latestCoinId, index.nHeight⟩).mintMetaInfo G).isSome ↔
        (s.mintMetaInfo G).isSome ∨ s.MintsInto mints G := by
      intro G
      rw [addMints_mintMetaInfo_isSome, hpmeta, hminted, hid]
      rfl
    have hreplay : ∀ G, ((({ (s.replay chain).setGroup p.latestCoinId ((s.replay chain).grownGroup
        b chain p.latestCoinId mints.length) with
        latestCoinId := p.latestCoinId } : CSparkState Coin Tag).addMints mints
          ⟨p.latestCoinId, b.nHeight⟩).mintMetaInfo G).isSome ↔
        (s.mintMetaInfo G).isSome ∨ s.MintsInto mints G := by
      intro G
      rw [addMints_mintMetaInfo_isSome, ← hmeta G]
      simp [setGroup, MintsInto, hid, h.agrees.minted_eq]
    rw [addBlock_of_hasMints _ hb, htags]
    refine ⟨fun G => ?_, ?_⟩
    · rw [Bool.eq_iff_iff, addSpends_mintMetaInfo, hreplay, hlive]
    · rw [addMints_usedLTags, hpused, addSpends_usedLTags_eq_iff
        (by simpa [setGroup] using hused) hnodup hfresh]
      refine forall₂_congr fun lTag _ => ?_
      rw [Bool.eq_iff_iff, hreplay]
      tauto

variable {maxCoinInGroup startGroupSize : Nat} {x : ChainState Coin Tag}

/-- Without disconnected blocks and unrecorded spends a replay gives the same groups and tags. -/
lemma restart_of_reach
    (h : ChainReach maxCoinInGroup startGroupSize (ConnectsRecorded maxCoinInGroup) x) :
    MetaAgrees x.1 x.2 ∧ (x.1.replay x.2).usedLTags = x.1.usedLTags := by
  induction h with
  | init => exact ⟨fun G => rfl, rfl⟩
  | step a hreach hok hstep ih =>
    obtain ⟨index, lTags, mints, b, rfl, hchain, hnodup, hfresh, hc, hx'⟩ | ⟨b, rfl, -, -⟩ :=
      chainStep_cases hstep
    · rw [hx']
      obtain ⟨hmeta, hiff⟩ := restart_connect (stateInv_of_reach hreach) ih.1 ih.2
        (fun c hmem => (hchain c hmem).2) hnodup hfresh hc
      exact ⟨hmeta, hiff.mpr hok.2⟩
    · exact hok.elim

lemma ConnectsRecorded.atMost
    (h : ChainReach maxCoinInGroup startGroupSize (ConnectsRecorded maxCoinInGroup) x) :
    ChainReach maxCoinInGroup startGroupSize (AtMost maxCoinInGroup) x := by
  refine Reach.mono ?_ h
  rintro x a hok
  cases a with
  | connect index lTags mints => exact hok.1
  | disconnect => trivial

lemma restartAgrees_iff_usedLTags
    (h : ChainReach maxCoinInGroup startGroupSize (AtMost maxCoinInGroup) x) :
    RestartAgrees x.1 x.2 ↔ (x.1.replay x.2).usedLTags = x.1.usedLTags := by
  have hs := stateInv_of_reach h
  refine ⟨fun h => h.usedLTags, fun hused => ⟨?_, ?_, ?_, hused⟩⟩
  · exact (hs.coinGroups_eq (noEmptyGroup_of_reach h)).symm
  · exact hs.agrees.latest_eq.symm
  · exact hs.agrees.minted_eq.symm

/-- In every run whose blocks have no more mints than a group holds and spend only from
groups with a recorded mint, or without one also behind the block, the replay of the chain
gives the live state; and it does so for the next block exactly if that block's spends are
recorded too. -/
theorem restart_agrees {maxCoinInGroup startGroupSize : Nat} {x : ChainState Coin Tag}
    (hreach : ChainReach maxCoinInGroup startGroupSize (ConnectsRecorded maxCoinInGroup) x) :
    RestartAgrees x.1 x.2 ∧ ∀ index lTags mints x', mints.length ≤ maxCoinInGroup →
        chainStep x (.connect index lTags mints) = some x' →
        (RestartAgrees x'.1 x'.2 ↔ x.1.SpendsRecorded lTags mints) := by
  obtain ⟨hmeta, hused⟩ := restart_of_reach hreach
  refine ⟨(restartAgrees_iff_usedLTags (ConnectsRecorded.atMost hreach)).mpr hused, ?_⟩
  intro index lTags mints x' hlen hstep
  have hreach' : ChainReach maxCoinInGroup startGroupSize (AtMost maxCoinInGroup) x' :=
    .step (.connect index lTags mints) (ConnectsRecorded.atMost hreach) hlen hstep
  rw [restartAgrees_iff_usedLTags hreach']
  obtain ⟨index', lTags', mints', b, heq, hchain, hnodup, hfresh, hc, hx'⟩ | ⟨b, heq, -, -⟩ :=
    chainStep_cases hstep
  · cases heq
    rw [hx']
    exact (restart_connect (stateInv_of_reach hreach) hmeta hused
      (fun c hmem => (hchain c hmem).2) hnodup hfresh hc).2
  · cases heq

end

/-- Three blocks that fill the first group, then one that repeats a coin and opens the
second one. -/
def repeatedCoin : List (ChainAction Nat Nat) :=
  [.connect (.plain 1) [] [1], .connect (.plain 2) [] [2], .connect (.plain 3) [] [3],
    .connect (.plain 4) [] [1]]

theorem restart_agrees_repeatedCoin :
    ∃ x x' : ChainState Nat Nat, ChainReach 3 1 (ConnectsRecorded 3) x ∧
      chainStep x (.connect (.plain 5) [(7, 1)] [4]) = some x' ∧ RestartAgrees x.1 x.2 ∧
      RestartAgrees x'.1 x'.2 := by
  have hrun : (repeatedCoin.foldlM chainStep ({ maxCoinInGroup := 3, startGroupSize := 1 },
      [])).any (fun x => (x.1.mintMetaInfo 1).isSome &&
        (chainStep x (.connect (.plain 5) [(7, 1)] [4])).isSome) = true := by
    decide +kernel
  obtain ⟨x, hx, htest⟩ := (Option.any_eq_true ..).mp hrun
  simp only [Bool.and_eq_true] at htest
  obtain ⟨x', hstep⟩ := Option.isSome_iff_exists.mp htest.2
  have hreach : ChainReach 3 1 (ConnectsRecorded 3) x := by
    apply Reach.of_foldlM .init _ hx
    simp [repeatedCoin, ConnectsRecorded, SpendsRecorded]
  obtain ⟨hagrees, hnext⟩ := restart_agrees hreach
  refine ⟨x, x', hreach, hstep, hagrees, (hnext _ _ _ x' (by decide) hstep).mpr ?_⟩
  simpa [SpendsRecorded] using Or.inl htest.1

/-- The second group exists, but has no recorded mint. A block that spends from it and
mints a new coin into it loses the linking tag; the replay records it. -/
theorem restart_differs_repeatedCoin :
    ∃ x x' : ChainState Nat Nat, ChainReach 3 1 (ConnectsAtMost 3) x ∧ (x.1.coinGroups 2).isSome ∧
      chainStep x (.connect (.plain 5) [(7, 2)] [4]) = some x' ∧
      x'.1.usedLTags 7 = none ∧ (x'.1.replay x'.2).usedLTags 7 = some 2 := by
  have hrun : (repeatedCoin.foldlM chainStep ({ maxCoinInGroup := 3, startGroupSize := 1 },
      [])).any (fun x => (x.1.coinGroups 2).isSome &&
        (chainStep x (.connect (.plain 5) [(7, 2)] [4])).any fun x' =>
          decide (x'.1.usedLTags 7 = none ∧ (x'.1.replay x'.2).usedLTags 7 = some 2)) = true := by
    decide +kernel
  obtain ⟨x, hx, htest⟩ := (Option.any_eq_true ..).mp hrun
  simp only [Bool.and_eq_true, decide_eq_true_eq, Option.any_eq_true] at htest
  obtain ⟨hgroup, x', hstep, hlive, hreplay⟩ := htest
  refine ⟨x, x', ?_, hgroup, hstep, hlive, hreplay⟩
  apply Reach.of_foldlM .init _ hx
  simp [repeatedCoin, ConnectsAtMost]

end Firo.Spark
