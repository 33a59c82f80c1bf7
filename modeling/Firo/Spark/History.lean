import Firo.Lib.Run
import Firo.Spark.Live

/-! Blocks are connected to the tip and disconnected from it. In every state that such a history
reaches the groups agree with the replay of the active chain. -/
namespace Firo.Spark

open Firo.Lib Option CSparkState

variable {Coin Tag : Type}

section

variable [DecidableEq Coin] [DecidableEq Tag] {chain : List (CBlockIndex Coin Tag)}
  {maxCoinInGroup startGroupSize : Nat}

@[simp] lemma build_maxCoinInGroup :
    (buildSparkStateFromIndex maxCoinInGroup startGroupSize chain).maxCoinInGroup =
      maxCoinInGroup := by
  induction chain with
  | nil => rfl
  | cons b chain ih =>
    rw [buildSparkStateFromIndex, addBlock_maxCoinInGroup, ih]

@[simp] lemma build_startGroupSize :
    (buildSparkStateFromIndex maxCoinInGroup startGroupSize chain).startGroupSize =
      startGroupSize := by
  induction chain with
  | nil => rfl
  | cons b chain ih =>
    rw [buildSparkStateFromIndex, addBlock_startGroupSize, ih]

lemma build_mintedCoins_of_some (h : WellPlaced chain) {c : Coin} {info}
    (hc : (buildSparkStateFromIndex maxCoinInGroup startGroupSize chain).mintedCoins c =
      some info) :
    ∃ b ∈ chain, ∃ coins, b.HasMints info.coinGroupId coins ∧ c ∈ coins ∧
      info.nHeight = b.nHeight := by
  induction chain with
  | nil => simp [buildSparkStateFromIndex] at hc
  | cons b chain ih =>
    rw [buildSparkStateFromIndex] at hc
    rcases h.2.2.2 with hb | ⟨id, coins, hb, -⟩
    · rw [addBlock_of_noMints _ hb, addSpends_mintedCoins] at hc
      obtain ⟨d, hd, hmem⟩ := ih h.1 hc
      exact ⟨d, List.mem_cons_of_mem _ hd, hmem⟩
    · rw [addBlock_mintedCoins _ hb, or_eq_some_iff] at hc
      rcases hc with hc | ⟨-, hc⟩
      · obtain ⟨d, hd, hmem⟩ := ih h.1 hc
        exact ⟨d, List.mem_cons_of_mem _ hd, hmem⟩
      · split at hc
        case isTrue hmem =>
          cases hc
          exact ⟨b, List.mem_cons_self, coins, hb, hmem, rfl⟩
        case isFalse => cases hc

lemma build_mintedCoins_isSome (h : WellPlaced chain) {c : Coin} :
    ((buildSparkStateFromIndex maxCoinInGroup startGroupSize chain).mintedCoins c).isSome ↔
      ∃ b ∈ chain, ∃ id coins, b.HasMints id coins ∧ c ∈ coins := by
  induction chain with
  | nil => simp [buildSparkStateFromIndex]
  | cons b chain ih =>
    have ih := ih h.1
    rw [buildSparkStateFromIndex]
    simp only [List.mem_cons, exists_eq_or_imp]
    rcases h.2.2.2 with hb | ⟨id, coins, hb, -⟩
    · rw [addBlock_of_noMints _ hb, addSpends_mintedCoins, ih]
      refine (or_iff_right ?_).symm
      rintro ⟨id, coins, hb', -⟩
      exact hb'.not_noMints hb
    · rw [addBlock_mintedCoins _ hb, isSome_or, Bool.or_eq_true, ih, or_comm]
      refine or_congr_left ?_
      constructor
      · intro hc
        refine ⟨id, coins, hb, ?_⟩
        by_contra hmem
        simp [hmem] at hc
      · rintro ⟨id', coins', hb', hc⟩
        obtain ⟨rfl, rfl⟩ := hb.unique hb'
        simp [hc]

end

namespace CSparkState

variable [DecidableEq Coin] [DecidableEq Tag]

def replay (s : CSparkState Coin Tag) (chain : List (CBlockIndex Coin Tag)) :
    CSparkState Coin Tag :=
  buildSparkStateFromIndex s.maxCoinInGroup s.startGroupSize chain

/-- What `ConnectBlockSpark` does to the state and to the Spark data of the index: the
index is cleared, then the linking tags and the mints of the block are applied. -/
def connect (s : CSparkState Coin Tag) (index : CBlockIndex Coin Tag)
    (chain : List (CBlockIndex Coin Tag)) (lTags : List (Tag × Int)) (mints : List Coin) :
    Option (CSparkState Coin Tag × CBlockIndex Coin Tag) :=
  let index := { index with sparkMintedCoins := ∅, spentLTags := lTags, sparkSetHash := ∅ }
  if mints.isEmpty then some (s.addSpends lTags, index)
  else (s.addSpends lTags).addMintsToStateAndBlockIndex index chain mints

end CSparkState

structure StateInv [DecidableEq Coin] [DecidableEq Tag] (s : CSparkState Coin Tag)
    (chain : List (CBlockIndex Coin Tag)) : Prop where
  wellPlaced : WellPlaced chain
  agrees : Agrees s (s.replay chain)

namespace StateInv

variable [DecidableEq Coin] [DecidableEq Tag] {s s' : CSparkState Coin Tag}
  {chain : List (CBlockIndex Coin Tag)} {index b b' : CBlockIndex Coin Tag}
  {lTags : List (Tag × Int)} {mints : List Coin}

lemma groupsInv (h : StateInv s chain) : GroupsInv (s.replay chain) chain :=
  groupsInv_build _ _ h.wellPlaced

lemma latestCoinId_eq (h : StateInv s chain) : s.latestCoinId = latestId chain := by
  rw [h.agrees.latest_eq, h.groupsInv.latest_eq]

@[simp] lemma replay_addSpends (lTags) : (s.addSpends lTags).replay chain = s.replay chain := by
  simp [CSparkState.replay]

lemma addSpends (h : StateInv s chain) (lTags) : StateInv (s.addSpends lTags) chain := by
  obtain ⟨h1, h2, h3, h4, h5⟩ := h.agrees
  refine ⟨h.wellPlaced, ?_⟩
  rw [replay_addSpends]
  exact ⟨by simpa using h1, by simpa using h2, by simpa using h3, by simpa using h4,
    by simpa using h5⟩

lemma nil (maxCoinInGroup startGroupSize : Nat) :
    StateInv ({ maxCoinInGroup, startGroupSize } : CSparkState Coin Tag) [] :=
  ⟨trivial, ⟨rfl, rfl, rfl, rfl, fun _ => Or.inl rfl⟩⟩

lemma of_noMints (h : StateInv s chain) (hhash : ∀ c ∈ chain, c.hash ≠ b.hash)
    (hheight : ∀ c ∈ chain, c.nHeight < b.nHeight) (hb : b.NoMints) : StateInv s (b :: chain) := by
  have hreplay : s.replay (b :: chain) = (s.replay chain).addSpends b.spentLTags := by
    rw [CSparkState.replay, buildSparkStateFromIndex, addBlock_of_noMints _ hb, CSparkState.replay]
  refine ⟨⟨h.wellPlaced, hhash, hheight, Or.inl hb⟩, ?_⟩
  obtain ⟨h1, h2, h3, h4, h5⟩ := h.agrees
  rw [hreplay]
  exact ⟨by simpa using h1, by simpa using h2, by simpa using h3, by simpa using h4,
    by simpa using h5⟩

lemma of_placed {p} (h : StateInv s chain)
    (hhash : ∀ c ∈ chain, c.hash ≠ b.hash) (hheight : ∀ c ∈ chain, c.nHeight < b.nHeight)
    (hp : CSparkState.Placed s (s.replay chain) p index chain mints)
    (hb : b.HasMints p.latestCoinId mints) (hbhash : b.hash = index.hash) :
    StateInv (p.addMints mints ⟨p.latestCoinId, b.nHeight⟩) (b :: chain) := by
  obtain ⟨hmax, hstart, -⟩ := hp.frame
  have hreplay : (p.addMints mints ⟨p.latestCoinId, b.nHeight⟩).replay (b :: chain) =
      (s.replay chain).addBlock b chain := by
    rw [CSparkState.replay, buildSparkStateFromIndex]
    simp [CSparkState.replay, hmax, hstart]
  refine ⟨⟨h.wellPlaced, hhash, hheight, Or.inr ⟨p.latestCoinId, mints, hb, ?_⟩⟩, ?_⟩
  · rw [← h.latestCoinId_eq]
    exact hp.fits_or_opens.imp And.left And.left
  · rw [hreplay]
    exact h.agrees.connect h.groupsInv hp hb hbhash

lemma addMints (h : StateInv s chain) (hheight : ∀ c ∈ chain, c.nHeight < index.nHeight)
    (hempty : index.sparkMintedCoins = ∅) (hne : mints ≠ []) :
    ∃ p, CSparkState.Placed s (s.replay chain) p index chain mints ∧
      s.addMintsToStateAndBlockIndex index chain mints =
        some (p.addMints mints ⟨p.latestCoinId, index.nHeight⟩,
          { index with
            sparkMintedCoins :=
              (∅ : Std.ExtTreeMap Int (List Coin)).insert p.latestCoinId mints }) :=
  addMintsToStateAndBlockIndex_spec h.agrees h.groupsInv h.wellPlaced.nodup
    (fun c hc => (hheight c hc).le) hempty hne

lemma connect_cases (h : StateInv s chain) (hheight : ∀ c ∈ chain, c.nHeight < index.nHeight)
    (hc : s.connect index chain lTags mints = some (s', b)) :
    b.block = index.block ∧ b.nHeight = index.nHeight ∧ b.spentLTags = lTags ∧
      (mints = [] ∧ s' = s.addSpends lTags ∧ b.NoMints ∨
        ∃ p, CSparkState.Placed (s.addSpends lTags) (s.replay chain) p index chain mints ∧
          s' = p.addMints mints ⟨p.latestCoinId, index.nHeight⟩ ∧
          b.HasMints p.latestCoinId mints) := by
  rcases eq_or_ne mints [] with rfl | hne
  · simp only [CSparkState.connect, List.isEmpty_nil, if_true, Option.some.injEq,
      Prod.mk.injEq] at hc
    obtain ⟨rfl, rfl⟩ := hc
    exact ⟨rfl, rfl, rfl, Or.inl ⟨rfl, rfl, rfl⟩⟩
  · have hempty : mints.isEmpty = false := by simpa using hne
    simp only [CSparkState.connect, hempty, Bool.false_eq_true, if_false] at hc
    have hheight' : ∀ c ∈ chain, c.nHeight < ({ index with
      sparkMintedCoins := ∅, spentLTags := lTags, sparkSetHash := ∅ } :
      CBlockIndex Coin Tag).nHeight := hheight
    obtain ⟨p, hp, heq⟩ := (h.addSpends lTags).addMints hheight' rfl hne
    rw [replay_addSpends] at hp
    rw [heq, Option.some.injEq, Prod.mk.injEq] at hc
    obtain ⟨rfl, rfl⟩ := hc
    exact ⟨rfl, rfl, rfl, Or.inr ⟨p, hp.of_hash_eq rfl, rfl, hne, rfl⟩⟩

/-- Connecting a block keeps the invariant. The index that joins the chain may differ
from the one `connect` leaves in what the replay of the groups does not read. -/
lemma connect (h : StateInv s chain) (hhash : ∀ c ∈ chain, c.hash ≠ index.hash)
    (hheight : ∀ c ∈ chain, c.nHeight < index.nHeight)
    (hc : s.connect index chain lTags mints = some (s', b')) (hblock : b.block = b'.block)
    (hbheight : b.nHeight = b'.nHeight) (hbmints : b.sparkMintedCoins = b'.sparkMintedCoins) :
    StateInv s' (b :: chain) := by
  obtain ⟨hblock', hheight', -, hcases⟩ := h.connect_cases hheight hc
  have hbhash : b.hash = index.hash := congrArg CBlock.hash (hblock.trans hblock')
  replace hbheight : b.nHeight = index.nHeight := hbheight.trans hheight'
  rw [← hbheight] at hheight hcases
  rw [← hbhash] at hhash
  obtain ⟨rfl, rfl, hb⟩ | ⟨p, hp, rfl, hb⟩ := hcases
  · exact (h.addSpends lTags).of_noMints hhash hheight (hbmints.trans hb)
  · rw [← replay_addSpends lTags] at hp
    exact (h.addSpends lTags).of_placed hhash hheight hp
      ⟨hb.ne_nil, hbmints.trans hb.eq_insert⟩ hbhash

section

variable (h : StateInv s (b :: chain)) (hs' : s.removeBlock b chain = some s')
include h hs'

lemma agrees_of_removeBlock : Agrees s' (s.replay chain) := by
  have hchain := h.wellPlaced.1
  have hminted : ∀ c info, (s.replay chain).mintedCoins c = some info →
      info.nHeight < b.nHeight := by
    intro c info hc
    obtain ⟨d, hd, -, -, -, hheight⟩ := build_mintedCoins_of_some hchain hc
    rw [hheight]
    exact h.wellPlaced.2.2.1 d hd
  have hagrees : Agrees s ((s.replay chain).addBlock b chain) := h.agrees
  exact hagrees.disconnect h.wellPlaced (groupsInv_build _ _ hchain) hminted hs'

lemma removeBlock_frame :
    s'.maxCoinInGroup = s.maxCoinInGroup ∧ s'.startGroupSize = s.startGroupSize := by
  have hs := h.agrees_of_removeBlock hs'
  exact ⟨hs.maxCoinInGroup_eq.trans build_maxCoinInGroup,
    hs.startGroupSize_eq.trans build_startGroupSize⟩

lemma disconnect :
    StateInv s' chain := by
  obtain ⟨hmax, hstart⟩ := h.removeBlock_frame hs'
  refine ⟨h.wellPlaced.1, ?_⟩
  rw [CSparkState.replay, hmax, hstart]
  exact h.agrees_of_removeBlock hs'

end

end StateInv

/-- A block to connect, with the linking tags and the mints of its transactions, or the
disconnection of the tip. -/
inductive ChainAction (Coin Tag : Type) where
  | connect (index : CBlockIndex Coin Tag) (lTags : List (Tag × Int)) (mints : List Coin)
  | disconnect

def CBlockIndex.plain (n : Nat) : CBlockIndex Coin Tag :=
  { block := ⟨n, n - 1, []⟩, nHeight := n }

abbrev ChainState (Coin Tag : Type) := CSparkState Coin Tag × List (CBlockIndex Coin Tag)

section

variable [DecidableEq Coin] [DecidableEq Tag]

/-- A connected block is new, above the tip, and its linking tags are distinct and not
used yet, which `CheckLTag` ensures. -/
def chainStep : ChainState Coin Tag → ChainAction Coin Tag → Option (ChainState Coin Tag)
  | (s, chain), .connect index lTags mints =>
    if (∀ c ∈ chain, c.hash ≠ index.hash ∧ c.nHeight < index.nHeight) ∧
        (lTags.map (·.1)).Nodup ∧ ∀ lTag ∈ lTags, s.isUsedLTag lTag.1 = false then
      (s.connect index chain lTags mints).map fun (s, index) => (s, index :: chain)
    else none
  | (_, []), .disconnect => none
  | (s, index :: chain), .disconnect =>
    (s.removeBlock index chain).map fun s => (s, chain)

/-- The states that blocks with at most `limit` mints and disconnections lead to. -/
def AtMost (limit : Nat) : ChainState Coin Tag → ChainAction Coin Tag → Prop
  | _, .connect _ _ mints => mints.length ≤ limit
  | _, .disconnect => True

def ConnectsAtMost (limit : Nat) : ChainState Coin Tag → ChainAction Coin Tag → Prop
  | _, .connect _ _ mints => mints.length ≤ limit
  | _, .disconnect => False

def ChainReach (maxCoinInGroup startGroupSize : Nat)
    (ok : ChainState Coin Tag → ChainAction Coin Tag → Prop) : ChainState Coin Tag → Prop :=
  Reach chainStep ok ({ maxCoinInGroup, startGroupSize }, [])

variable {a : ChainAction Coin Tag} {ok : ChainState Coin Tag → ChainAction Coin Tag → Prop}

lemma chainStep_cases {x x'} (h : chainStep x a = some x') :
    (∃ index lTags mints b, a = .connect index lTags mints ∧
      (∀ c ∈ x.2, c.hash ≠ index.hash ∧ c.nHeight < index.nHeight) ∧
      (lTags.map (·.1)).Nodup ∧ (∀ lTag ∈ lTags, x.1.isUsedLTag lTag.1 = false) ∧
      x.1.connect index x.2 lTags mints = some (x'.1, b) ∧ x'.2 = b :: x.2) ∨
    (∃ b, a = .disconnect ∧ x.2 = b :: x'.2 ∧ x.1.removeBlock b x'.2 = some x'.1) := by
  obtain ⟨s, chain⟩ := x
  cases a with
  | connect index lTags mints =>
    simp only [chainStep] at h
    split at h
    case isFalse => cases h
    case isTrue hguard =>
      obtain ⟨⟨s', b⟩, hc, rfl⟩ := map_eq_some_iff.mp h
      exact Or.inl ⟨index, lTags, mints, b, rfl, hguard.1, hguard.2.1, hguard.2.2, hc, rfl⟩
  | disconnect =>
    cases chain with
    | nil => cases h
    | cons b chain =>
      obtain ⟨s', hs', rfl⟩ := map_eq_some_iff.mp h
      exact Or.inr ⟨b, rfl, rfl, hs'⟩

variable {maxCoinInGroup startGroupSize : Nat} {x x' : ChainState Coin Tag}

/-- Connecting or disconnecting a block keeps the state in agreement with the chain. -/
lemma StateInv.step (h : StateInv x.1 x.2) (hstep : chainStep x a = some x') :
    StateInv x'.1 x'.2 := by
  obtain ⟨index, lTags, mints, b, rfl, hchain, -, -, hc, hx'⟩ | ⟨b, rfl, hx, hs'⟩ :=
    chainStep_cases hstep
  · rw [hx']
    exact h.connect (fun c hmem => (hchain c hmem).1) (fun c hmem => (hchain c hmem).2) hc
      rfl rfl rfl
  · rw [hx] at h
    exact h.disconnect hs'

/-- In every run the state agrees with the chain. -/
lemma stateInv_of_reach (h : ChainReach maxCoinInGroup startGroupSize ok x) : StateInv x.1 x.2 :=
  Reach.invariant (I := fun x => StateInv x.1 x.2) (StateInv.nil _ _)
    (fun _ _ _ hinv _ hstep => hinv.step hstep) h

lemma chainStep_frame (h : StateInv x.1 x.2) (hstep : chainStep x a = some x') :
    x'.1.maxCoinInGroup = x.1.maxCoinInGroup ∧ x'.1.startGroupSize = x.1.startGroupSize := by
  obtain ⟨index, lTags, mints, b, rfl, hchain, -, -, hc, -⟩ | ⟨b, rfl, hx, hs'⟩ :=
    chainStep_cases hstep
  · obtain ⟨-, -, -, ⟨-, hs', -⟩ | ⟨p, hp, hs', -⟩⟩ :=
      h.connect_cases (fun c hmem => (hchain c hmem).2) hc
    · simp [hs']
    · obtain ⟨hmax, hstart, -⟩ := hp.frame
      simp [hs', hmax, hstart]
  · rw [hx] at h
    exact h.removeBlock_frame hs'

lemma frame_of_reach (h : ChainReach maxCoinInGroup startGroupSize ok x) :
    x.1.maxCoinInGroup = maxCoinInGroup ∧ x.1.startGroupSize = startGroupSize := by
  induction h with
  | init => exact ⟨rfl, rfl⟩
  | step a hreach _ hstep ih =>
    obtain ⟨hmax, hstart⟩ := chainStep_frame (stateInv_of_reach hreach) hstep
    exact ⟨hmax.trans ih.1, hstart.trans ih.2⟩

lemma AtMost.mono {limit limit' : Nat} (hle : limit ≤ limit')
    (h : ChainReach maxCoinInGroup startGroupSize (AtMost limit) x) :
    ChainReach maxCoinInGroup startGroupSize (AtMost limit') x := by
  refine Reach.mono ?_ h
  rintro x a hok
  cases a with
  | connect index lTags mints => exact le_trans hok hle
  | disconnect => trivial

end

/-- Every group holds coins. Only a first block with more mints than a group holds breaks
this. -/
def CSparkState.NoEmptyGroup (s : CSparkState Coin Tag) : Prop :=
  ∀ G info, s.coinGroups G = some info → info.nCoins ≠ 0

lemma CSparkState.removeBlockCoins_of_ne {s s' : CSparkState Coin Tag}
    {b : CBlockIndex Coin Tag} {chain : List (CBlockIndex Coin Tag)} {entry : Int × List Coin}
    (h : removeBlockCoins b chain s entry = some s') {G : Int} (hG : G ≠ entry.1) :
    s'.coinGroups G = s.coinGroups G := by
  obtain ⟨id, coins⟩ := entry
  simp only [removeBlockCoins] at h
  split at h
  case h_1 => cases h; rfl
  case h_2 coinGroup hs =>
    split_ifs at h
    · cases h; rfl
    · cases h
      exact Function.update_of_ne hG _ _
    · obtain ⟨last, -, rfl⟩ := map_eq_some_iff.mp h
      exact Function.update_of_ne hG _ _

section

variable [DecidableEq Coin] [DecidableEq Tag] {s s' : CSparkState Coin Tag}
  {chain : List (CBlockIndex Coin Tag)} {index b : CBlockIndex Coin Tag}
  {lTags : List (Tag × Int)} {mints : List Coin}

/-- Without empty groups the groups are those of a replay of the chain. -/
lemma StateInv.coinGroups_eq (h : StateInv s chain) (hne : s.NoEmptyGroup) :
    s.coinGroups = (s.replay chain).coinGroups := by
  funext G
  rcases h.agrees.groups_eq G with he | ⟨-, -, hs, -⟩
  · exact he
  · exact absurd rfl (hne G _ hs)

lemma StateInv.latest_pos_of_opens (h : StateInv s chain) (hne : s.NoEmptyGroup)
    (hlen : mints.length ≤ s.maxCoinInGroup)
    (hopens : s.maxCoinInGroup <
      ((s.coinGroups (max 1 s.latestCoinId)).getD {}).nCoins + mints.length) :
    1 ≤ s.latestCoinId := by
  by_contra hlt
  have hnone : s.coinGroups (max 1 s.latestCoinId) = none := by
    rw [h.coinGroups_eq hne, eq_none_iff_forall_ne_some]
    intro group hgroup
    have hbounds := h.groupsInv.bounds _ group hgroup
    rw [← h.latestCoinId_eq] at hbounds
    omega
  rw [hnone, getD_none, zero_add] at hopens
  omega

namespace CSparkState.NoEmptyGroup

omit [DecidableEq Coin] in
lemma addSpends (h : s.NoEmptyGroup) : (s.addSpends lTags).NoEmptyGroup := by
  simpa [NoEmptyGroup] using h

lemma of_placed {p} (h : s.NoEmptyGroup) (hinv : StateInv s chain) (hne : mints ≠ [])
    (hlen : mints.length ≤ s.maxCoinInGroup) (hp : Placed s (s.replay chain) p index chain mints)
    (info) : (p.addMints mints info).NoEmptyGroup := by
  intro G group hG
  rw [addMints_coinGroups] at hG
  by_cases hlatest : G = p.latestCoinId
  · rw [hlatest, hp.group_eq, Option.some.injEq] at hG
    have hpos : mints.length ≠ 0 := by simpa using hne
    rw [← hG, grownGroup]
    simp only
    omega
  · rcases hp.groups_eq G hlatest with he | ⟨rfl, htwo, hzero, -⟩
    · rw [he] at hG
      exact h G group hG
    · rcases hp.fits_or_opens with ⟨hid, -⟩ | ⟨-, hopens⟩
      · omega
      · have := hinv.latest_pos_of_opens h hlen hopens
        omega

lemma connect (h : s.NoEmptyGroup) (hinv : StateInv s chain)
    (hheight : ∀ c ∈ chain, c.nHeight < index.nHeight) (hlen : mints.length ≤ s.maxCoinInGroup)
    (hc : s.connect index chain lTags mints = some (s', b)) : s'.NoEmptyGroup := by
  obtain ⟨-, -, -, ⟨-, rfl, -⟩ | ⟨p, hp, rfl, hb⟩⟩ := hinv.connect_cases hheight hc
  · exact h.addSpends
  · rw [← StateInv.replay_addSpends lTags] at hp
    exact of_placed h.addSpends (hinv.addSpends lTags) hb.ne_nil (by simpa using hlen) hp _

lemma disconnect (h : s.NoEmptyGroup) (hinv : StateInv s (b :: chain))
    (hs' : s.removeBlock b chain = some s') : s'.NoEmptyGroup := by
  have hinv' : StateInv s' chain := hinv.disconnect hs'
  rcases hinv.wellPlaced.2.2.2 with hb | ⟨id, coins, hb, hid⟩
  · rw [s.removeBlock_of_noMints hb, Option.some.injEq] at hs'
    subst hs'
    simpa [NoEmptyGroup] using h
  · intro G info hG
    by_cases hGid : G = id
    · rcases hinv'.agrees.groups_eq G with he | ⟨hone, hlt, -⟩
      · obtain ⟨post, own, carried, pre, hshape⟩ := hinv'.groupsInv.shape G info (he ▸ hG)
        exact hshape.nCoins_ne_zero
      · rw [hinv'.groupsInv.latest_eq] at hlt
        omega
    · rw [s.removeBlock_of_hasMints hb, map_eq_some_iff] at hs'
      obtain ⟨s₁, hs₁, rfl⟩ := hs'
      rw [removeSpends_coinGroups, removeMints_coinGroups, removeBlockCoins_of_ne hs₁ hGid] at hG
      exact h G info hG

end CSparkState.NoEmptyGroup

/-- No group is empty when no block has more mints than fit into one. -/
lemma noEmptyGroup_of_reach {maxCoinInGroup startGroupSize : Nat} {x : ChainState Coin Tag}
    (h : ChainReach maxCoinInGroup startGroupSize (AtMost maxCoinInGroup) x) :
    x.1.NoEmptyGroup := by
  induction h with
  | init => exact fun G info hG => by cases hG
  | step a hreach hok hstep hne =>
    have hinv := stateInv_of_reach hreach
    obtain ⟨index, lTags, mints, b, rfl, hchain, -, -, hc, -⟩ | ⟨b, rfl, hx, hs'⟩ :=
      chainStep_cases hstep
    · refine hne.connect hinv (fun c hmem => (hchain c hmem).2) ?_ hc
      rw [(frame_of_reach hreach).1]
      exact hok
    · exact hne.disconnect (hx ▸ hinv) hs'

end

end Firo.Spark
