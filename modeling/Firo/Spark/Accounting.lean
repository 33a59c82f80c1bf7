import Firo.Spark.CoverSet
import Firo.Spark.History

/-! The ids, sizes and coin lists of the groups in the states that blocks of bounded size lead to.
-/
namespace Firo.Spark

open Firo.Lib List CSparkState

variable {Coin Tag : Type}

section

variable {G : Int} {l : List (CBlockIndex Coin Tag)} {b : CBlockIndex Coin Tag}

lemma getD_length (id : Int) : ((b.sparkMintedCoins[id]?).getD []).length =
    countCoinInBlock b id := by
  unfold countCoinInBlock
  cases b.sparkMintedCoins[id]? <;> rfl

lemma length_coinSetOf_own (hG : G ≠ 0) (hb : countCoinInBlock b (G - 1) = 0) :
    (coinSetOf G (G - 1) b).length = countCoinInBlock b G := by
  unfold coinSetOf coinSetId
  by_cases hcount : countCoinInBlock b G = 0
  · simp [hcount, hb]
  · simp [hcount, hG, getD_length]

lemma length_coinSetOf_carried (hb : countCoinInBlock b G = 0)
    (hzero : G - 1 = 0 → countCoinInBlock b (G - 1) = 0) :
    (coinSetOf G (G - 1) b).length = countCoinInBlock b (G - 1) := by
  unfold coinSetOf coinSetId
  by_cases hcount : countCoinInBlock b (G - 1) = 0
  · simp [hb, hcount]
  · have hG : G - 1 ≠ 0 := fun h => hcount (hzero h)
    simp [hb, hcount, hG, getD_length]

lemma length_flatMap_eq_sumCount {f : CBlockIndex Coin Tag → List Coin} {id : Int}
    (h : ∀ b ∈ l, (f b).length = countCoinInBlock b id) : (l.flatMap f).length = sumCount id l := by
  induction l with
  | nil => rfl
  | cons b l ih =>
    rw [forall_mem_cons] at h
    rw [flatMap_cons, length_append, h.1, ih h.2, sumCount_cons]

end

variable {info : SparkCoinGroupInfo} {chain post own carried pre : List (CBlockIndex Coin Tag)}

lemma GroupShape.length_coinSet {start : Nat} {G : Int}
    (h : GroupShape start chain G info post own carried pre) (hG : 1 ≤ G)
    (hzero : ∀ b ∈ chain, countCoinInBlock b 0 = 0) :
    ((own ++ carried).flatMap (coinSetOf G (G - 1))).length = info.nCoins := by
  have hown : (own.flatMap (coinSetOf G (G - 1))).length = sumCount G own := by
    apply length_flatMap_eq_sumCount
    intro b hb
    exact length_coinSetOf_own (by omega) (h.own_count b hb _ (by omega))
  have hcarried : (carried.flatMap (coinSetOf G (G - 1))).length = sumCount (G - 1) carried := by
    apply length_flatMap_eq_sumCount
    intro b hb
    apply length_coinSetOf_carried (h.carried_count b hb _ (by omega))
    intro hG0
    rw [hG0]
    apply hzero
    rw [h.chain_eq]
    simp [hb]
  rw [flatMap_append, length_append, hown, hcarried, h.nCoins_eq]

lemma GroupShape.coinSetOf_oldest {start : Nat} {G : Int}
    {chain post own carried pre seg : List (CBlockIndex Coin Tag)} {f : CBlockIndex Coin Tag}
    (h : GroupShape start chain G info post own carried pre) (hG : 1 ≤ G)
    (hzero : ∀ b ∈ chain, countCoinInBlock b 0 = 0) (hseg : own ++ carried = seg ++ [f]) :
    0 < (coinSetOf G (G - 1) f).length := by
  rcases eq_nil_or_concat carried with hc | ⟨l, b, hc⟩
  · obtain ⟨own', b, hown, hb, -⟩ := h.oldest
    rw [hc, hown, append_nil] at hseg
    obtain rfl : b = f := singleton_inj.mp (append_inj' hseg rfl).2
    rw [length_coinSetOf_own (by omega) (h.own_count b (by simp [hown]) _ (by omega))]
    exact Nat.pos_of_ne_zero hb
  · rw [concat_eq_append] at hc
    obtain ⟨hb, -, -⟩ := h.carried_oldest l b hc
    rw [hc, ← append_assoc] at hseg
    obtain rfl : b = f := singleton_inj.mp (append_inj' hseg rfl).2
    rw [length_coinSetOf_carried (h.carried_count b (by simp [hc]) _ (by omega))]
    · exact Nat.pos_of_ne_zero hb
    · intro hG0
      rw [hG0]
      exact hzero b (by rw [h.chain_eq, hc]; simp)

lemma GroupShape.carried_lt {start B : Nat} {G : Int}
    (h : GroupShape start chain G info post own carried pre)
    (hB : ∀ b ∈ chain, ∀ id, countCoinInBlock b id ≤ B) : sumCount (G - 1) carried ≤ start + B := by
  rcases eq_nil_or_concat carried with hc | ⟨l, b, hc⟩
  · rw [hc]
    simp
  · rw [concat_eq_append] at hc
    obtain ⟨-, -, hlt⟩ := h.carried_oldest l b hc
    have hb : countCoinInBlock b (G - 1) ≤ B := by
      apply hB
      rw [h.chain_eq, hc]
      simp
    rw [hc, sumCount_append]
    simp only [sumCount_cons, sumCount_nil]
    omega

structure Bounded (B : Nat) (s : CSparkState Coin Tag) (chain : List (CBlockIndex Coin Tag)) :
    Prop where
  counts : ∀ b ∈ chain, ∀ id, countCoinInBlock b id ≤ B
  complete : ∀ G, 1 ≤ G → G ≤ s.latestCoinId → (s.coinGroups G).isSome
  bounded : ∀ G info, s.coinGroups G = some info → info.nCoins ≤ s.maxCoinInGroup

lemma CSparkState.removeBlockCoins_nCoins_le {s s' : CSparkState Coin Tag}
    {b : CBlockIndex Coin Tag} {chain : List (CBlockIndex Coin Tag)} {entry : Int × List Coin}
    (h : removeBlockCoins b chain s entry = some s') (hinfo : s'.coinGroups entry.1 = some info) :
    ∃ info', s.coinGroups entry.1 = some info' ∧ info.nCoins ≤ info'.nCoins := by
  obtain ⟨id, coins⟩ := entry
  simp only [removeBlockCoins] at h
  split at h
  case h_1 =>
    cases h
    exact ⟨info, hinfo, le_rfl⟩
  case h_2 coinGroup hs =>
    refine ⟨coinGroup, hs, ?_⟩
    split_ifs at h
    · cases h
      rw [hs, Option.some.injEq] at hinfo
      rw [hinfo]
    · cases h
      simp at hinfo
    · obtain ⟨last, -, rfl⟩ := Option.map_eq_some_iff.mp h
      simp only [setGroup, Function.update_self, Option.some.injEq] at hinfo
      rw [← hinfo]
      exact Nat.sub_le _ _

section

variable [DecidableEq Coin] [DecidableEq Tag] {B : Nat} {s s' p : CSparkState Coin Tag}
  {chain : List (CBlockIndex Coin Tag)} {index b : CBlockIndex Coin Tag}
  {mints : List Coin}

omit [DecidableEq Coin] in
lemma Bounded.addSpends (h : Bounded B s chain) (lTags) : Bounded B (s.addSpends lTags) chain :=
  ⟨h.counts, by simpa using h.complete, by simpa using h.bounded⟩

lemma StateInv.nCoins_le_of_placed (h : StateInv s chain) (hgroups : s.NoEmptyGroup)
    (hB : s.startGroupSize + 2 * B ≤ s.maxCoinInGroup)
    (hp : Placed s (s.replay chain) p index chain mints)
    (hinv : StateInv (p.addMints mints ⟨p.latestCoinId, b.nHeight⟩) (b :: chain))
    (hcounts : ∀ c ∈ b :: chain, ∀ id, countCoinInBlock c id ≤ B) :
    ((s.replay chain).grownGroup index chain p.latestCoinId mints.length).nCoins ≤
      s.maxCoinInGroup := by
  rcases hp.fits_or_opens with ⟨hid, hfits⟩ | ⟨hid, -⟩
  · cases hr : (s.replay chain).coinGroups p.latestCoinId with
    | some group =>
      obtain ⟨post, own, carried, pre, hshape⟩ := h.groupsInv.shape _ group hr
      obtain ⟨seg, f, -, hfirst⟩ := hshape.segment
      rw [grownGroup_of_some _ hr hfirst]
      rw [h.coinGroups_eq hgroups, hr] at hfits
      exact hfits
    | none =>
      have hone : ¬ 1 < p.latestCoinId := by
        intro hlt
        obtain ⟨group, hgroup⟩ := h.groupsInv.latest_some (by rw [← h.latestCoinId_eq]; omega)
        rw [← h.latestCoinId_eq, show s.latestCoinId = p.latestCoinId by omega, hr] at hgroup
        cases hgroup
      rw [grownGroup_of_none _ hr (if_neg hone)]
      rw [h.coinGroups_eq hgroups, hr] at hfits
      exact hfits
  · have hgroup : (p.addMints mints ⟨p.latestCoinId, b.nHeight⟩).coinGroups p.latestCoinId =
        some ((s.replay chain).grownGroup index chain p.latestCoinId mints.length) := by
      rw [addMints_coinGroups, hp.group_eq]
    have hlatest : (p.addMints mints ⟨p.latestCoinId, b.nHeight⟩).latestCoinId =
        p.latestCoinId := addMints_latestCoinId ..
    rw [hinv.agrees.group_of_latest_le (by rw [← hinv.agrees.latest_eq, hlatest])] at hgroup
    obtain ⟨post, own, carried, pre, hshape⟩ := hinv.groupsInv.shape _ _ hgroup
    have hcarried := hshape.carried_lt hcounts
    have hbelow : sumCount p.latestCoinId chain = 0 := by
      apply sumCount_eq_zero
      intro c hc
      apply h.groupsInv.above c hc
      rw [← h.latestCoinId_eq]
      omega
    have hown : sumCount p.latestCoinId own ≤ countCoinInBlock b p.latestCoinId := by
      have hsum : sumCount p.latestCoinId (b :: chain) = countCoinInBlock b p.latestCoinId := by
        rw [sumCount_cons, hbelow, add_zero]
      rw [← hsum, hshape.chain_eq, sumCount_append, sumCount_append]
      omega
    have hlast := hcounts b mem_cons_self p.latestCoinId
    have hstart : ((p.addMints mints ⟨p.latestCoinId, b.nHeight⟩).replay
        (b :: chain)).startGroupSize = s.startGroupSize := by
      simp [replay, hp.frame.2.1]
    rw [hstart] at hcarried
    rw [hshape.nCoins_eq]
    omega

lemma Bounded.of_placed (h : Bounded B s chain) (hs : StateInv s chain)
    (hgroups : s.NoEmptyGroup) (hB : s.startGroupSize + 2 * B ≤ s.maxCoinInGroup)
    (hp : Placed s (s.replay chain) p index chain mints)
    (hb : b.HasMints p.latestCoinId mints) (hlen : mints.length ≤ B)
    (hinv : StateInv (p.addMints mints ⟨p.latestCoinId, b.nHeight⟩) (b :: chain)) :
    Bounded B (p.addMints mints ⟨p.latestCoinId, b.nHeight⟩) (b :: chain) := by
  have hcounts : ∀ c ∈ b :: chain, ∀ id, countCoinInBlock c id ≤ B := by
    rw [forall_mem_cons]
    refine ⟨fun id => ?_, h.counts⟩
    rw [hb.countCoinInBlock]
    split <;> omega
  have hcoins : ∀ G, G ≠ p.latestCoinId → p.coinGroups G = s.coinGroups G := by
    intro G hG
    rcases hp.groups_eq G hG with he | ⟨rfl, -, -, he⟩
    · exact he
    · have hzero := NoEmptyGroup.of_placed hgroups hs hb.ne_nil
        (hlen.trans (by omega)) hp ⟨p.latestCoinId, b.nHeight⟩ 1 _
        (by rw [addMints_coinGroups, he])
      exact absurd rfl hzero
  constructor
  · exact hcounts
  · intro G hG hle
    rw [addMints_latestCoinId] at hle
    rw [addMints_coinGroups]
    by_cases hid : G = p.latestCoinId
    · rw [hid, hp.group_eq]
      rfl
    · rw [hcoins G hid]
      apply h.complete G hG
      rcases hp.fits_or_opens with ⟨hfits, -⟩ | ⟨hnext, hopens⟩
      · omega
      · have := hs.latest_pos_of_opens hgroups (hlen.trans (by omega)) hopens
        omega
  · intro G info hG
    rw [addMints_coinGroups] at hG
    rw [addMints_maxCoinInGroup, hp.frame.1]
    by_cases hid : G = p.latestCoinId
    · rw [hid, hp.group_eq, Option.some.injEq] at hG
      rw [← hG]
      exact hs.nCoins_le_of_placed hgroups hB hp hinv hcounts
    · rw [hcoins G hid] at hG
      exact h.bounded G info hG

lemma Bounded.disconnect (h : Bounded B s (b :: chain)) (hs : StateInv s (b :: chain))
    (hs' : s.removeBlock b chain = some s') : Bounded B s' chain := by
  have hinv : StateInv s' chain := hs.disconnect hs'
  have hmax := (hs.removeBlock_frame hs').1
  have hcounts : ∀ c ∈ chain, ∀ id, countCoinInBlock c id ≤ B :=
    fun c hc => h.counts c (mem_cons_of_mem _ hc)
  rcases hs.wellPlaced.2.2.2 with hb | ⟨id, coins, hb, hid⟩
  · rw [s.removeBlock_of_noMints hb, Option.some.injEq] at hs'
    subst hs'
    exact ⟨hcounts, by simpa using h.complete, by simpa using h.bounded⟩
  · have hlatest : s.latestCoinId = id := by
      rw [hs.latestCoinId_eq, latestId_cons_of_hasMints hb]
    have hlatest' := hinv.latestCoinId_eq
    rw [s.removeBlock_of_hasMints hb, Option.map_eq_some_iff] at hs'
    obtain ⟨s₁, hs₁, hs'⟩ := hs'
    have hgroups : s'.coinGroups = s₁.coinGroups := by
      rw [← hs', removeSpends_coinGroups, removeMints_coinGroups]
    refine ⟨hcounts, fun G hG hle => ?_, fun G info hG => ?_⟩
    · by_cases hGid : G = id
      · obtain ⟨info, hinfo⟩ := hinv.groupsInv.latest_some (by omega)
        rw [show G = latestId chain by omega, hinv.agrees.group_of_some hinfo]
        rfl
      · rw [hgroups, removeBlockCoins_of_ne hs₁ hGid]
        apply h.complete G hG
        omega
    · rw [hmax]
      rw [hgroups] at hG
      by_cases hGid : G = id
      · obtain ⟨info', hinfo', hle⟩ := removeBlockCoins_nCoins_le hs₁ (hGid ▸ hG)
        exact hle.trans (h.bounded _ info' hinfo')
      · rw [removeBlockCoins_of_ne hs₁ hGid] at hG
        exact h.bounded G info hG

variable {maxCoinInGroup startGroupSize : Nat}

/-- In runs with few mints in each block no group outgrows the limit. -/
lemma bounded_of_reach {x : ChainState Coin Tag} (hB : startGroupSize + 2 * B ≤ maxCoinInGroup)
    (h : ChainReach maxCoinInGroup startGroupSize (AtMost B) x) : Bounded B x.1 x.2 := by
  induction h with
  | init => exact ⟨by simp, fun G hG hle => absurd (hG.trans hle) (by simp), by simp⟩
  | step a hreach hok hstep ih =>
    have hs := stateInv_of_reach hreach
    have hgroups := noEmptyGroup_of_reach (AtMost.mono (by omega) hreach)
    obtain ⟨hmax, hstart⟩ := frame_of_reach hreach
    have hs₁ := hs.step hstep
    obtain ⟨index, lTags, mints, b, rfl, hchain, -, -, hc, hx'⟩ | ⟨b, rfl, hx, hs'⟩ :=
      chainStep_cases hstep
    · rw [hx'] at hs₁ ⊢
      obtain ⟨-, hheight, -, ⟨-, hs', hb⟩ | ⟨p, hp, hs', hb⟩⟩ :=
        hs.connect_cases (fun c hmem => (hchain c hmem).2) hc
      · rw [hs']
        obtain ⟨hcounts, hcomplete, hbounded⟩ := ih.addSpends lTags
        refine ⟨forall_mem_cons.mpr ⟨fun id => ?_, hcounts⟩, hcomplete, hbounded⟩
        rw [hb.countCoinInBlock]
        exact Nat.zero_le _
      · rw [hs', ← hheight] at hs₁ ⊢
        rw [← StateInv.replay_addSpends lTags] at hp
        exact (ih.addSpends lTags).of_placed (hs.addSpends lTags) hgroups.addSpends
          (by simpa [hmax, hstart] using hB) hp hb hok hs₁
    · rw [hx] at hs ih
      exact ih.disconnect hs hs'

/-- Blocks with at most `B` mints, of which a group holds two more than it takes over,
lead to groups `1..latestCoinId`; each counts the coins that the walk of
`GetCoinSetForSpend` collects at the tip, and holds no more than the limit. -/
theorem group_accounting {s : CSparkState Coin Tag} {chain : List (CBlockIndex Coin Tag)}
    (hB : startGroupSize + 2 * B ≤ maxCoinInGroup)
    (hreach : ChainReach maxCoinInGroup startGroupSize (AtMost B) (s, chain))
    (cp : ConsensusParams) :
    (∀ G, (s.coinGroups G).isSome ↔ 1 ≤ G ∧ G ≤ s.latestCoinId) ∧
      ∀ G info, s.coinGroups G = some info → info.nCoins ≤ maxCoinInGroup ∧
        ∃ coins, getCoinSet cp s chain G = some coins ∧ coins.length = info.nCoins := by
  have hs : StateInv s chain := stateInv_of_reach hreach
  have hb : Bounded B s chain := bounded_of_reach hB hreach
  have hgroups : s.NoEmptyGroup := noEmptyGroup_of_reach (AtMost.mono (by omega) hreach)
  have heq := hs.coinGroups_eq hgroups
  have hbounds : ∀ G info, s.coinGroups G = some info → 1 ≤ G ∧ G ≤ s.latestCoinId := by
    intro G info hG
    rw [heq] at hG
    rw [hs.latestCoinId_eq]
    exact hs.groupsInv.bounds G info hG
  refine ⟨fun G => ⟨fun hG => ?_, fun hG => hb.complete G hG.1 hG.2⟩, fun G info hG => ⟨?_, ?_⟩⟩
  · obtain ⟨info, hinfo⟩ := Option.isSome_iff_exists.mp hG
    exact hbounds G info hinfo
  · have hle := hb.bounded G info hG
    rwa [(frame_of_reach hreach).1] at hle
  · obtain ⟨hpos, -⟩ := hbounds G info hG
    obtain ⟨post, own, carried, pre, hshape⟩ := hs.groupsInv.shape G info (heq ▸ hG)
    refine ⟨_, hshape.getCoinSet_eq hs.wellPlaced hG (by omega) cp, ?_⟩
    apply hshape.length_coinSet hpos
    apply hs.groupsInv.none_count
    rw [← heq, Option.eq_none_iff_forall_ne_some]
    intro info' hinfo'
    have := hbounds 0 info' hinfo'
    omega

end

/-- Four blocks of one coin, the last of which opens the second group. -/
def fourBlocks : List (ChainAction Nat Nat) :=
  [.connect (.plain 1) [] [1], .connect (.plain 2) [] [2], .connect (.plain 3) [] [3],
    .connect (.plain 4) [] [4]]

theorem group_accounting_fourBlocks :
    ∃ x : ChainState Nat Nat, ChainReach 3 1 (AtMost 1) x ∧ x.1.latestCoinId = 2 ∧
      (∀ G, (x.1.coinGroups G).isSome ↔ 1 ≤ G ∧ G ≤ x.1.latestCoinId) ∧
      ∀ G info, x.1.coinGroups G = some info → info.nCoins ≤ 3 ∧
        ∃ coins, getCoinSet (.regtest 1) x.1 x.2 G = some coins ∧
          coins.length = info.nCoins := by
  have hrun : (fourBlocks.foldlM chainStep ({ maxCoinInGroup := 3, startGroupSize := 1 },
      [])).any (fun x => decide (x.1.latestCoinId = 2)) = true := by
    decide +kernel
  obtain ⟨x, hx, hlatest⟩ := (Option.any_eq_true ..).mp hrun
  have hreach : ChainReach 3 1 (AtMost 1) x := by
    apply Reach.of_foldlM .init _ hx
    simp [fourBlocks, AtMost]
  exact ⟨x, hreach, of_decide_eq_true hlatest, group_accounting (by decide) hreach (.regtest 1)⟩

end Firo.Spark
