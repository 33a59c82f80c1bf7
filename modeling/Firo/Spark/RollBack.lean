import Firo.Spark.History

/-! `RemoveBlock` recognises the first block of a group by a count: the coins that the group took
over, without those of the newest block it took them from, must be fewer than `startGroupSize`. The
test is right for exactly the histories described here; otherwise the block that opened the group
cannot be disconnected. -/
namespace Firo.Spark

open Firo.Lib Option CSparkState

variable {Coin Tag : Type}

/-- The numbers of coins of the group `G` in the blocks that hold some, newest first. -/
def groupCounts (G : Int) (chain : List (CBlockIndex Coin Tag)) : List Nat :=
  (chain.map (countCoinInBlock · G)).filter (· ≠ 0)

/-- The newest part of a list of counts that reaches `required`, or all of it. -/
def carriedCounts (required : Nat) : List Nat → List Nat
  | [] => []
  | n :: rest => if required = 0 then [] else n :: carriedCounts (required - n) rest

namespace CSparkState

/-- The coins that a new group takes over, without those of the newest block. -/
def carriedBehind (s : CSparkState Coin Tag) (chain : List (CBlockIndex Coin Tag)) : Nat :=
  (carriedCounts s.startGroupSize (groupCounts s.latestCoinId chain)).tail.sum

end CSparkState

section

variable {G : Int} {l l' : List (CBlockIndex Coin Tag)}

lemma groupCounts_append : groupCounts G (l ++ l') = groupCounts G l ++ groupCounts G l' := by
  simp [groupCounts]

lemma groupCounts_eq_nil (h : ∀ b ∈ l, countCoinInBlock b G = 0) : groupCounts G l = [] := by
  simpa [groupCounts] using h

@[simp] lemma carriedCounts_zero (counts) : carriedCounts 0 counts = [] := by
  cases counts <;> simp [carriedCounts]

lemma countBack_fst (required coins : Nat) (first) (l : List (CBlockIndex Coin Tag)) :
    (countBack G required l coins first).1 =
      coins + (carriedCounts (required - coins) (groupCounts G l)).sum := by
  induction l generalizing coins first with
  | nil => simp [countBack, groupCounts, carriedCounts]
  | cons b l ih =>
    by_cases hlt : coins < required
    · by_cases hb : countCoinInBlock b G = 0
      · have hcounts : groupCounts G (b :: l) = groupCounts G l := by
          simp [groupCounts, hb]
        rw [hcounts, ← ih coins first]
        simp [countBack, hlt, hb]
      · have hcounts : groupCounts G (b :: l) = countCoinInBlock b G :: groupCounts G l := by
          simp [groupCounts, hb]
        have hrest : required - coins ≠ 0 := by omega
        have ih := ih (coins + countCoinInBlock b G) (some b.hash)
        rw [Nat.sub_add_eq] at ih
        simp only [countBack, hlt, hb, if_true, if_false, ih, hcounts,
          carriedCounts, hrest, List.sum_cons, add_assoc]
    · rw [Nat.sub_eq_zero_of_le (by omega)]
      simp [countBack, hlt]

lemma prevGroupCount_eq (h : ∀ b ∈ l, countCoinInBlock b G = 0) :
    prevGroupCount G l = (groupCounts (G - 1) l).headD 0 := by
  induction l with
  | nil => rfl
  | cons b l ih =>
    rw [List.forall_mem_cons] at h
    by_cases hb : countCoinInBlock b (G - 1) = 0
    · have hcounts : groupCounts (G - 1) (b :: l) = groupCounts (G - 1) l := by
        simp [groupCounts, hb]
      rw [hcounts, ← ih h.2]
      simp [prevGroupCount, h.1, hb]
    · simp [prevGroupCount, h.1, hb, groupCounts]

lemma edged_iff {start : Nat} (hstart : 0 < start) {counts}
    (hne : counts ≠ []) (hpos : ∀ n ∈ counts, n ≠ 0) :
    (0 < counts.headD 0 ∧ sizeSub (carriedCounts start counts).sum (counts.headD 0) < start) ↔
      (carriedCounts start counts).tail.sum < start := by
  obtain ⟨n, rest, rfl⟩ := List.exists_cons_of_ne_nil hne
  have hn : n ≠ 0 := hpos n List.mem_cons_self
  have hsub : ∀ m, sizeSub (n + m) n = m := by
    intro m
    simp [sizeSub]
  simp [carriedCounts, hstart.ne', hsub, Nat.pos_of_ne_zero hn]

lemma groupCounts_ne_zero : ∀ n ∈ groupCounts G l, n ≠ 0 := by
  intro n hn
  simpa using (List.mem_filter.mp hn).2

lemma groupCounts_ne_nil {b} (hb : b ∈ l)
    (hcount : countCoinInBlock b G ≠ 0) : groupCounts G l ≠ [] := by
  have hmem : countCoinInBlock b G ∈ groupCounts G l := by
    simp only [groupCounts, List.mem_filter, List.mem_map]
    exact ⟨⟨b, hb, rfl⟩, by simpa using hcount⟩
  exact List.ne_nil_of_mem hmem

lemma GroupShape.countLastNCoins_fst {s : CSparkState Coin Tag} {start required : Nat}
    {chain post own carried pre : List (CBlockIndex Coin Tag)} {info}
    (h : GroupShape start chain G info post own carried pre) (hs : s.coinGroups G = some info)
    (hnodup : (chain.map CBlockIndex.hash).Nodup) : (s.countLastNCoins chain G required).1 =
      (carriedCounts required (groupCounts G chain)).sum := by
  obtain ⟨last, rest, hlast, hbelow, hrest, -⟩ := h.countBack_below hnodup
  have hcounts : groupCounts G (own ++ rest) = groupCounts G chain := by
    rw [h.chain_eq, hrest, groupCounts_append (l := post),
      groupCounts_eq_nil fun b hb => h.post_count b hb G le_rfl, List.nil_append]
  obtain ⟨first, last', nCoins⟩ := info
  subst hlast
  simp only [countLastNCoins, hs, hbelow, countBack_fst, zero_add, Nat.sub_zero, hcounts]

end

section

variable [DecidableEq Coin] [DecidableEq Tag] {s : CSparkState Coin Tag}
  {chain : List (CBlockIndex Coin Tag)} {index b : CBlockIndex Coin Tag} {mints : List Coin}
  {p : CSparkState Coin Tag}

/-- A block that opens a group is recognised as its first block if the coins behind the
newest block that the group took over are fewer than `startGroupSize`. -/
lemma removeBlockCoins_isSome_of_opens (h : StateInv s chain) (hstart : 0 < s.startGroupSize)
    (hp : Placed s (s.replay chain) p index chain mints) (hb : b.HasMints p.latestCoinId mints)
    (hbhash : b.hash = index.hash) (hpos : 1 ≤ s.latestCoinId)
    (hopens : p.latestCoinId = s.latestCoinId + 1) (info) :
    (removeBlockCoins b chain (p.addMints mints info) (p.latestCoinId, mints)).isSome ↔
      s.carriedBehind chain < s.startGroupSize := by
  have hinv := h.groupsInv
  have hlatest := h.latestCoinId_eq
  obtain ⟨group, hgroup⟩ := hinv.latest_some (by omega)
  obtain ⟨post, own, carried, pre, hshape⟩ := hinv.shape _ group hgroup
  obtain ⟨d, own', hown, hd, -⟩ := hshape.newest
  have hdmem : d ∈ chain := by
    rw [hshape.chain_eq, hown]
    simp
  have hnone : (s.replay chain).coinGroups p.latestCoinId = none := by
    rw [eq_none_iff_forall_ne_some]
    intro group' hgroup'
    have := hinv.bounds _ group' hgroup'
    omega
  obtain ⟨⟨n, first⟩, hcount⟩ : ∃ x, (s.replay chain).countLastNCoins chain
      (latestId chain) s.startGroupSize = x := ⟨_, rfl⟩
  have hn : n = (carriedCounts s.startGroupSize (groupCounts (latestId chain) chain)).sum := by
    rw [← hshape.countLastNCoins_fst hgroup h.wellPlaced.nodup, hcount]
  have hgrown : (if 1 < p.latestCoinId then (s.replay chain).countLastNCoins chain
      (p.latestCoinId - 1) (s.replay chain).startGroupSize else (0, none)) = (n, first) := by
    rw [if_pos (by omega), show p.latestCoinId - 1 = latestId chain by omega, ← hcount]
    simp [replay]
  have hgroup' : (p.addMints mints info).coinGroups p.latestCoinId =
      some ⟨first.or (some b.hash), some b.hash, n + mints.length⟩ := by
    rw [addMints_coinGroups, (hp.of_hash_eq hbhash).group_eq, grownGroup_of_none _ hnone hgrown]
  have hprev : prevGroupCount p.latestCoinId chain =
      (groupCounts (latestId chain) chain).headD 0 := by
    rw [prevGroupCount_eq fun c hc => hinv.above c hc _ (by omega),
      show p.latestCoinId - 1 = latestId chain by omega]
  have hle : ¬ p.latestCoinId ≤ 1 := by omega
  rw [Agrees.removeBlockCoins_of_none h.wellPlaced hinv hb hnone (by omega) hgroup', hprev, hn,
    addMints_startGroupSize, hp.frame.2.1]
  simp only [hle, false_or, edged_iff hstart (groupCounts_ne_nil hdmem hd) groupCounts_ne_zero,
    CSparkState.carriedBehind, hlatest]
  split <;> simp_all

/-- A connected block can be disconnected again exactly if it went to the group that was
the newest, or the new group's coins behind the newest block are few. -/
lemma removeBlock_isSome_iff (h : StateInv s chain) (hgroups : s.NoEmptyGroup)
    (hstart : 0 < s.startGroupSize) (hlen : mints.length ≤ s.maxCoinInGroup)
    (hwp : WellPlaced (b :: chain)) (hp : Placed s (s.replay chain) p index chain mints)
    (hb : b.HasMints p.latestCoinId mints) (hbhash : b.hash = index.hash) (info) :
    ((p.addMints mints info).removeBlock b chain).isSome ↔
      s.Fits mints.length ∨ s.carriedBehind chain < s.startGroupSize := by
  have hinv := h.groupsInv
  have hlatest := h.latestCoinId_eq
  have hnonneg := hinv.latest_nonneg
  rw [removeBlock_of_hasMints _ hb, isSome_map]
  rcases hp.fits_or_opens with ⟨hid, hfits⟩ | ⟨hid, hopens⟩
  · have hfits' : s.Fits mints.length := by
      rw [hid] at hfits
      exact hfits
    refine iff_of_true ?_ (Or.inl hfits')
    cases hr : (s.replay chain).coinGroups p.latestCoinId with
    | some group =>
      rw [Agrees.removeBlockCoins_of_some hwp hinv hb hr
        (by rw [addMints_coinGroups, (hp.of_hash_eq hbhash).group_eq])]
      rfl
    | none =>
      have hzero : latestId chain = 0 := by
        by_contra hne
        obtain ⟨group, hgroup⟩ := hinv.latest_some (by omega)
        rw [show p.latestCoinId = latestId chain by omega, hgroup] at hr
        cases hr
      have hone : ¬ 1 < p.latestCoinId := by omega
      have hgroup : (p.addMints mints info).coinGroups p.latestCoinId =
          some ⟨some b.hash, some b.hash, 0 + mints.length⟩ := by
        rw [addMints_coinGroups, (hp.of_hash_eq hbhash).group_eq,
          grownGroup_of_none _ hr (if_neg hone)]
        rfl
      rw [Agrees.removeBlockCoins_of_none h.wellPlaced hinv hb hr (fun _ => rfl) hgroup,
        if_pos (Or.inl (by omega))]
      rfl
  · have hpos : 1 ≤ s.latestCoinId := h.latest_pos_of_opens hgroups hlen hopens
    have hfits : ¬ s.Fits mints.length := not_le.mpr hopens
    rw [removeBlockCoins_isSome_of_opens h hstart hp hb hbhash hpos (by omega) info]
    simp [hfits]

/-- Connecting a block with mints and then disconnecting it hits no assertion and restores
the groups, the newest id and the minted coins, exactly if the mints fit into the newest
group or the coins that the new group takes over behind the newest block are fewer than
`startGroupSize`. -/
theorem removeBlock_restores_iff {maxCoinInGroup startGroupSize : Nat}
    {s : CSparkState Coin Tag} {chain : List (CBlockIndex Coin Tag)}
    (hreach : ChainReach maxCoinInGroup startGroupSize
      (AtMost (maxCoinInGroup - startGroupSize)) (s, chain))
    (hstart : 0 < startGroupSize) {index : CBlockIndex Coin Tag}
    (hindex : index.sparkMintedCoins = ∅)
    (hnew : ∀ c ∈ chain, c.hash ≠ index.hash ∧ c.nHeight < index.nHeight) {mints : List Coin}
    (hne : mints ≠ []) (hlen : mints.length ≤ maxCoinInGroup - startGroupSize) :
    (∃ s₁ b s₂, s.addMintsToStateAndBlockIndex index chain mints = some (s₁, b) ∧
      s₁.removeBlock b chain = some s₂ ∧ s₂.coinGroups = s.coinGroups ∧
      s₂.latestCoinId = s.latestCoinId ∧ s₂.mintedCoins = s.mintedCoins) ↔
    s.Fits mints.length ∨ s.carriedBehind chain < startGroupSize := by
  have h : StateInv s chain := stateInv_of_reach hreach
  have hgroups : s.NoEmptyGroup := noEmptyGroup_of_reach (AtMost.mono (Nat.sub_le _ _) hreach)
  obtain ⟨hmax, hsize⟩ : s.maxCoinInGroup = maxCoinInGroup ∧
      s.startGroupSize = startGroupSize := frame_of_reach hreach
  have hhash : ∀ c ∈ chain, c.hash ≠ index.hash := fun c hc => (hnew c hc).1
  have hheight : ∀ c ∈ chain, c.nHeight < index.nHeight := fun c hc => (hnew c hc).2
  have hlen' : mints.length ≤ s.maxCoinInGroup := by omega
  obtain ⟨p, hp, heq⟩ := h.addMints hheight hindex hne
  obtain ⟨b, hb⟩ : ∃ b : CBlockIndex Coin Tag, b = { index with
      sparkMintedCoins := (∅ : Std.ExtTreeMap Int (List Coin)).insert p.latestCoinId mints } :=
    ⟨_, rfl⟩
  rw [← hb] at heq
  have hbmints : b.HasMints p.latestCoinId mints := ⟨hne, by rw [hb]⟩
  have hbhash : b.hash = index.hash := by rw [hb]; rfl
  have hbheight : b.nHeight = index.nHeight := by rw [hb]
  rw [← hbhash] at hhash
  rw [← hbheight] at hheight heq
  have hinv : StateInv (p.addMints mints ⟨p.latestCoinId, b.nHeight⟩) (b :: chain) :=
    h.of_placed hhash hheight hp hbmints hbhash
  have hiff := removeBlock_isSome_iff h hgroups (hsize ▸ hstart) hlen' hinv.wellPlaced hp hbmints
    hbhash ⟨p.latestCoinId, b.nHeight⟩
  rw [hsize] at hiff
  constructor
  · rintro ⟨s₁, b', s₂, hadd, hremove, -⟩
    rw [heq, Option.some.injEq, Prod.mk.injEq] at hadd
    obtain ⟨rfl, rfl⟩ := hadd
    exact hiff.mp (by rw [hremove]; rfl)
  · intro hcond
    obtain ⟨s₂, hs₂⟩ := isSome_iff_exists.mp (hiff.mpr hcond)
    have hinv₂ := hinv.disconnect hs₂
    have hgroups₂ : s₂.NoEmptyGroup :=
      (NoEmptyGroup.of_placed hgroups h hne hlen' hp _).disconnect hinv hs₂
    have hreplay : s₂.replay chain = s.replay chain := by
      obtain ⟨hmax₂, hsize₂⟩ := hinv.removeBlock_frame hs₂
      obtain ⟨hmax₁, hsize₁, -⟩ := hp.frame
      simp [replay, hmax₂, hsize₂, hmax₁, hsize₁]
    refine ⟨_, b, s₂, heq, hs₂, ?_, ?_, ?_⟩
    · rw [hinv₂.coinGroups_eq hgroups₂, h.coinGroups_eq hgroups, hreplay]
    · rw [hinv₂.latestCoinId_eq, h.latestCoinId_eq]
    · rw [hinv₂.agrees.minted_eq, h.agrees.minted_eq, hreplay]

end

def evenBlocks : List (ChainAction Nat Nat) :=
  [.connect (.plain 1) [] [1, 2], .connect (.plain 2) [] [3, 4]]

/-- After blocks with 2 and 2 mints a block with 2 mints opens a group, and is undone. -/
theorem removeBlock_restores_evenBlocks :
    ∃ x : ChainState Nat Nat, ChainReach 4 2 (AtMost (4 - 2)) x ∧ ¬ x.1.Fits 2 ∧
      ∃ s₁ b s₂, x.1.addMintsToStateAndBlockIndex (.plain 3) x.2 [5, 6] = some (s₁, b) ∧
        s₁.removeBlock b x.2 = some s₂ ∧ s₂.coinGroups = x.1.coinGroups ∧
        s₂.latestCoinId = x.1.latestCoinId ∧ s₂.mintedCoins = x.1.mintedCoins := by
  have hrun : (evenBlocks.foldlM chainStep
      ({ maxCoinInGroup := 4, startGroupSize := 2 }, [])).any (fun x =>
        decide (∀ c ∈ x.2, c.hash ≠ (CBlockIndex.plain 3 : CBlockIndex Nat Nat).hash ∧
          c.nHeight < 3) &&
        decide (¬ x.1.Fits 2 ∧ x.1.carriedBehind x.2 < 2)) = true := by
    decide +kernel
  obtain ⟨x, hx, htest⟩ := (any_eq_true ..).mp hrun
  simp only [Bool.and_eq_true, decide_eq_true_eq] at htest
  obtain ⟨hnew, hopens, hcarried⟩ := htest
  have hreach : ChainReach 4 2 (AtMost (4 - 2)) x :=
    Reach.of_foldlM .init (by simp [evenBlocks, AtMost]) hx
  refine ⟨x, hreach, hopens, ?_⟩
  exact (removeBlock_restores_iff hreach (by decide) rfl hnew (by simp) (by simp)).mpr
    (.inr hcarried)

/-- Two blocks, of which the newer one alone has fewer coins than a new group takes over. -/
def unevenBlocks : List (ChainAction Nat Nat) :=
  [.connect (.plain 1) [] [1, 2], .connect (.plain 2) [] [3]]

/-- With 4 coins in a group, of which a new group takes over 2: after blocks with 2 and 1
mints a block with 2 mints opens a group that takes over 3 coins, and disconnecting it
fails an assertion. -/
theorem removeBlock_aborts_after_unevenBlocks :
    ∃ x : ChainState Nat Nat, ChainReach 4 2 (AtMost (4 - 2)) x ∧
      (∀ c ∈ x.2, c.hash ≠ (CBlockIndex.plain 3 : CBlockIndex Nat Nat).hash ∧ c.nHeight < 3) ∧
      ∃ s₁ b, x.1.addMintsToStateAndBlockIndex (.plain 3) x.2 [4, 5] = some (s₁, b) ∧
        s₁.removeBlock b x.2 = none := by
  have hrun : (unevenBlocks.foldlM chainStep
      ({ maxCoinInGroup := 4, startGroupSize := 2 }, [])).any (fun x =>
        decide (∀ c ∈ x.2, c.hash ≠ (CBlockIndex.plain 3 : CBlockIndex Nat Nat).hash ∧
          c.nHeight < 3) &&
        (x.1.addMintsToStateAndBlockIndex (.plain 3) x.2 [4, 5]).any fun y =>
          (y.1.removeBlock y.2 x.2).isNone) = true := by
    decide +kernel
  obtain ⟨x, hx, htest⟩ := (any_eq_true ..).mp hrun
  simp only [Bool.and_eq_true, decide_eq_true_eq, any_eq_true, isNone_iff_eq_none] at htest
  obtain ⟨hnew, ⟨s₁, b⟩, hadd, hremove⟩ := htest
  refine ⟨x, ?_, hnew, s₁, b, hadd, hremove⟩
  apply Reach.of_foldlM .init _ hx
  simp [unevenBlocks, AtMost]

end Firo.Spark
