import Firo.Spark.Live

/-! The three walks that collect the coins of a group: `GetCoinSetForSpend`, with which a wallet and
the proof batch build a cover set, and the two walks of `CheckSparkSpendTransaction` that count and
load it from a block reference. -/
namespace Firo.Spark

open Firo.Lib Option
open List hiding not_le not_lt

variable {Coin Tag : Type}

def nextBlockHeight (chain : List (CBlockIndex Coin Tag)) : Int :=
  match chain with
  | [] => 0
  | tip :: _ => tip.nHeight + 1

def includeFirstBlockSetHash (cp : ConsensusParams) (height : Int) : Bool :=
  if height < 0 ∨ height = INT_MAX then false
  else decide (cp.nSparkChaumV2StartBlock ≤ height)

/-- The group id under which a block's coins count for the group `id`: its own coins
before those of the previous group, `0` for neither. -/
def coinSetId (id previousId : Int) (block : CBlockIndex Coin Tag) : Int :=
  if countCoinInBlock block id ≠ 0 then id
  else if countCoinInBlock block previousId ≠ 0 then previousId
  else 0

def coinSetOf (id previousId : Int) (block : CBlockIndex Coin Tag) : List Coin :=
  if coinSetId id previousId block ≠ 0 then
    (block.sparkMintedCoins[coinSetId id previousId block]?).getD []
  else []

def findSetHash (groupId : Int) (firstBlock : BlockPtr) (includeFirstBlock : Bool) :
    List (CBlockIndex Coin Tag) → Option (List UInt8)
  | [] => if firstBlock = none ∧ includeFirstBlock = false then some [] else none
  | block :: rest =>
    if some block.hash ≠ firstBlock ∨ includeFirstBlock = true then
      match block.sparkSetHash[groupId]? with
      | some hash => some hash
      | none =>
        if some block.hash = firstBlock then some []
        else findSetHash groupId firstBlock includeFirstBlock rest
    else some []

def getAnonymitySetHash (s : CSparkState Coin Tag) (index : List (CBlockIndex Coin Tag))
    (groupId : Int) (generation includeFirstBlock : Bool) : Option (List UInt8) :=
  match s.coinGroups groupId with
  | none => some []
  | some coinGroup =>
    if (coinGroup.firstBlock == coinGroup.lastBlock && generation) || coinGroup.nCoins == 0 then
      some []
    else findSetHash groupId coinGroup.firstBlock includeFirstBlock index

structure CoinSetForSpend (Coin : Type) where
  numberOfCoins : Nat := 0
  blockHash : Option Uint256 := none
  coins : List Coin := []
  setHash : List UInt8 := []

/-- The loop of `GetCoinSetForSpend`. A block above `maxHeight` is skipped without
the test for the first block. -/
def coinSetLoop (s : CSparkState Coin Tag) (includeFirstBlock : Bool) (maxHeight groupId : Int)
    (firstBlock : BlockPtr) :
    List (CBlockIndex Coin Tag) → CoinSetForSpend Coin → Option (CoinSetForSpend Coin)
  | [], _ => none
  | block :: rest, out => do
    if maxHeight < block.nHeight then
      coinSetLoop s includeFirstBlock maxHeight groupId firstBlock rest out
    else
      let id := coinSetId groupId (groupId - 1) block
      let out ←
        if id ≠ 0 then do
          let out ←
            if out.numberOfCoins = 0 then do
              let setHash ← getAnonymitySetHash s (block :: rest) id false includeFirstBlock
              some { out with blockHash := some block.hash, setHash := setHash }
            else some out
          let coins := (block.sparkMintedCoins[id]?).getD []
          some { out with
            numberOfCoins := out.numberOfCoins + coins.length
            coins := out.coins ++ coins }
        else some out
      if some block.hash = firstBlock then some out
      else coinSetLoop s includeFirstBlock maxHeight groupId firstBlock rest out

def getCoinSetForSpend (cp : ConsensusParams) (s : CSparkState Coin Tag)
    (chain : List (CBlockIndex Coin Tag)) (maxHeight coinGroupID : Int) :
    Option (CoinSetForSpend Coin) :=
  match s.coinGroups coinGroupID with
  | none => some {}
  | some coinGroup =>
    match coinGroup.lastBlock with
    | none => none
    | some last =>
      coinSetLoop s (includeFirstBlockSetHash cp (nextBlockHeight chain)) maxHeight coinGroupID
        coinGroup.firstBlock (below CBlockIndex.hash last chain) {}

def ZC_MINT_CONFIRMATIONS : Int := 1

def getCoinSet (cp : ConsensusParams) (s : CSparkState Coin Tag)
    (chain : List (CBlockIndex Coin Tag)) (coinGroupID : Int) : Option (List Coin) :=
  let maxHeight := (nextBlockHeight chain - 1) - (ZC_MINT_CONFIRMATIONS - 1)
  (getCoinSetForSpend cp s chain maxHeight coinGroupID).map (·.coins)

/-- The search of `CheckSparkSpendTransaction` for the referenced block: it ends at
the group's first block when no block has the hash. -/
def findReference (firstBlock : BlockPtr) (blockHash : Uint256) :
    List (CBlockIndex Coin Tag) → Option (List (CBlockIndex Coin Tag))
  | [] => none
  | block :: rest =>
    if some block.hash = firstBlock ∨ block.hash = blockHash then some (block :: rest)
    else findReference firstBlock blockHash rest

def coverSetBlocks (firstBlock : BlockPtr) (index : List (CBlockIndex Coin Tag)) :
    Option (List (CBlockIndex Coin Tag)) :=
  match firstBlock with
  | none => none
  | some first => upTo CBlockIndex.hash first index

variable (stateId previousStateId : Int) (firstBlock : BlockPtr)
  (index : List (CBlockIndex Coin Tag))

def coverSetSize : Option Nat :=
  (coverSetBlocks firstBlock index).map fun blocks =>
    (blocks.map fun block => (coinSetOf stateId previousStateId block).length).sum

def loadCoverSet : Option (List Coin) :=
  (coverSetBlocks firstBlock index).map (·.flatMap (coinSetOf stateId previousStateId))

lemma coverSetSize_eq : coverSetSize stateId previousStateId firstBlock index =
      (loadCoverSet stateId previousStateId firstBlock index).map List.length := by
  unfold coverSetSize loadCoverSet
  rw [Option.map_map]
  congr 1
  funext blocks
  exact (length_flatMap ..).symm

section

variable {s : CSparkState Coin Tag} {incl : Bool} {maxHeight G : Int} {first : BlockPtr}

variable {f : CBlockIndex Coin Tag} {seg rest : List (CBlockIndex Coin Tag)}

lemma findSetHash_isSome (hfirst : first = some f.hash) :
    ∃ hash, findSetHash G first incl (seg ++ f :: rest) = some hash := by
  induction seg with
  | nil =>
    cases hf : f.sparkSetHash[G]? <;> cases incl <;> simp [findSetHash, hfirst, hf]
  | cons b seg ih =>
    obtain ⟨hash, ih⟩ := ih
    by_cases hb : some b.hash = first
    · cases hs : b.sparkSetHash[G]? <;> cases incl <;> simp [findSetHash, hb, hs]
    · cases hs : b.sparkSetHash[G]? <;> simp [findSetHash, hb, hs, ih]

lemma coinSetLoop_skip {out} {l rest}
    (h : ∀ b ∈ l, maxHeight < b.nHeight ∨ coinSetId G (G - 1) b = 0 ∧ some b.hash ≠ first) :
    coinSetLoop s incl maxHeight G first (l ++ rest) out =
      coinSetLoop s incl maxHeight G first rest out := by
  induction l with
  | nil => rfl
  | cons b l ih =>
    rw [forall_mem_cons] at h
    rw [cons_append, coinSetLoop]
    rcases h.1 with hb | ⟨hb, hne⟩
    · simp [hb, ih h.2]
    · simp [hb, hne, ih h.2]

lemma coinSetLoop_collect {out : CoinSetForSpend Coin} (hout : out.numberOfCoins ≠ 0)
    (hheight : ∀ b ∈ seg ++ [f], b.nHeight ≤ maxHeight) (hfirst : first = some f.hash)
    (hseg : ∀ b ∈ seg, some b.hash ≠ first) :
    coinSetLoop s incl maxHeight G first (seg ++ f :: rest) out = some { out with
      numberOfCoins := out.numberOfCoins + ((seg ++ [f]).flatMap (coinSetOf G (G - 1))).length
      coins := out.coins ++ (seg ++ [f]).flatMap (coinSetOf G (G - 1)) } := by
  induction seg generalizing out with
  | nil =>
    have hf : ¬ maxHeight < f.nHeight := not_lt.mpr (hheight f (by simp))
    by_cases hid : coinSetId G (G - 1) f = 0
    · simp [coinSetLoop, hf, hid, hfirst, coinSetOf]
    · simp [coinSetLoop, hf, hid, hfirst, coinSetOf, hout]
  | cons b seg ih =>
    rw [forall_mem_cons] at hseg
    rw [cons_append, forall_mem_cons] at hheight
    have hb : ¬ maxHeight < b.nHeight := not_lt.mpr hheight.1
    by_cases hid : coinSetId G (G - 1) b = 0
    · rw [cons_append, coinSetLoop]
      simp only [hb, if_false, hid, ne_eq, not_true_eq_false, bind_eq_bind,
        bind_some, hseg.1, ih hout hheight.2 hseg.2]
      simp [coinSetOf, hid]
    · rw [cons_append, coinSetLoop]
      simp only [hb, if_false, hid, ne_eq, not_false_eq_true, if_true, hout,
        bind_eq_bind, bind_some, hseg.1]
      rw [ih (by simp only; omega) hheight.2 hseg.2]
      simp [coinSetOf, hid, add_assoc]

lemma coinSetLoop_take {d : CBlockIndex Coin Tag} {rest} {setHash}
    (hheight : d.nHeight ≤ maxHeight) (hid : coinSetId G (G - 1) d = G) (hG : G ≠ 0)
    (hhash : getAnonymitySetHash s (d :: rest) G false incl = some setHash) :
    coinSetLoop s incl maxHeight G first (d :: rest) {} =
      if some d.hash = first then some ⟨(coinSetOf G (G - 1) d).length, some d.hash,
        coinSetOf G (G - 1) d, setHash⟩
      else coinSetLoop s incl maxHeight G first rest ⟨(coinSetOf G (G - 1) d).length,
        some d.hash, coinSetOf G (G - 1) d, setHash⟩ := by
  rw [coinSetLoop]
  simp [not_lt.mpr hheight, hid, hG, hhash, coinSetOf]

lemma WellPlaced.height_lt {post rest : List (CBlockIndex Coin Tag)} {b : CBlockIndex Coin Tag}
    (h : WellPlaced (post ++ b :: rest)) : ∀ c ∈ rest, c.nHeight < b.nHeight :=
  h.append_right.2.2.1

namespace GroupShape

variable {start : Nat} {chain post own carried pre : List (CBlockIndex Coin Tag)}
  {info : SparkCoinGroupInfo}

section

variable (h : GroupShape start chain G info post own carried pre) (hwp : WellPlaced chain)
include h hwp

lemma first_of_split {above tail} {d} (hown : own = above ++ d :: tail) :
    ∃ seg f, d :: (tail ++ carried) = seg ++ [f] ∧ info.firstBlock = some f.hash ∧
      (∀ b ∈ seg, some b.hash ≠ info.firstBlock) ∧
      ∀ b ∈ post ++ above, some b.hash ≠ info.firstBlock := by
  obtain ⟨seg₀, f, hseg₀, hfirst⟩ := h.segment
  have hne : d :: (tail ++ carried) ≠ [] := by simp
  obtain ⟨seg, g, hseg⟩ : ∃ seg g, d :: (tail ++ carried) = seg ++ [g] :=
    ⟨_, _, (dropLast_append_getLast hne).symm⟩
  have hg : g = f := by
    have heq : (above ++ seg) ++ [g] = seg₀ ++ [f] := by
      rw [← hseg₀, hown, append_assoc, ← hseg]
      simp
    exact singleton_inj.mp (append_inj' heq rfl).2
  subst hg
  have hchain : chain = (post ++ above ++ seg) ++ g :: pre := by
    have hrest : d :: (tail ++ (carried ++ pre)) = seg ++ g :: pre := by
      rw [← append_assoc, ← cons_append, hseg]
      simp
    rw [h.chain_eq, hown]
    simp only [append_assoc, cons_append, hrest]
  have hkey := hwp.nodup
  rw [hchain] at hkey
  have hne := key_ne_of_nodup hkey
  refine ⟨seg, g, hseg, hfirst, ?_, ?_⟩
  · intro b hb
    rw [hfirst, ne_eq, Option.some.injEq]
    exact hne b (mem_append_right _ hb)
  · intro b hb
    rw [hfirst, ne_eq, Option.some.injEq]
    exact hne b (mem_append_left _ hb)

lemma coinSetForSpend (hs : s.coinGroups G = some info) (hG : G ≠ 0)
    (cp : ConsensusParams) {o : CBlockIndex Coin Tag} (ho : o ∈ own)
    (hcount : countCoinInBlock o G ≠ 0) (hheight : o.nHeight ≤ maxHeight) :
    ∃ above d tail setHash, own = above ++ d :: tail ∧ countCoinInBlock d G ≠ 0 ∧
      d.nHeight ≤ maxHeight ∧
      (∀ b ∈ above, maxHeight < b.nHeight ∨ countCoinInBlock b G = 0) ∧
      findSetHash G info.firstBlock (includeFirstBlockSetHash cp (nextBlockHeight chain))
        (d :: (tail ++ (carried ++ pre))) = some setHash ∧
      getCoinSetForSpend cp s chain maxHeight G = some {
        numberOfCoins := ((d :: (tail ++ carried)).flatMap (coinSetOf G (G - 1))).length
        blockHash := some d.hash
        coins := (d :: (tail ++ carried)).flatMap (coinSetOf G (G - 1))
        setHash := setHash } := by
  obtain ⟨above, d, tail, hown, habove, hd⟩ : ∃ above d tail, own = above ++ d :: tail ∧
      (∀ b ∈ above, maxHeight < b.nHeight ∨ countCoinInBlock b G = 0) ∧
      ¬ (maxHeight < d.nHeight ∨ countCoinInBlock d G = 0) := by
    have hex : ¬ (maxHeight < o.nHeight ∨ countCoinInBlock o G = 0) := by
      push Not
      exact ⟨hheight, hcount⟩
    clear h hcount hheight
    induction own with
    | nil => cases ho
    | cons b own ih =>
      by_cases hb : maxHeight < b.nHeight ∨ countCoinInBlock b G = 0
      · rcases mem_cons.mp ho with rfl | ho
        · exact absurd hb hex
        · obtain ⟨above, d, tail, rfl, habove, hd⟩ := ih ho
          exact ⟨b :: above, d, tail, rfl, forall_mem_cons.mpr ⟨hb, habove⟩, hd⟩
      · exact ⟨[], b, own, rfl, by simp, hb⟩
  push Not at hd
  obtain ⟨hdh, hdc⟩ := hd
  obtain ⟨seg, f, hseg, hfirst, hsegne, habovene⟩ := h.first_of_split hwp hown
  obtain ⟨e, own', hown', -, hlast⟩ := h.newest
  have hrest : d :: (tail ++ (carried ++ pre)) = seg ++ f :: pre := by
    rw [← append_assoc, ← cons_append, hseg]
    simp
  obtain ⟨setHash, hhash⟩ : ∃ hash, findSetHash G info.firstBlock
      (includeFirstBlockSetHash cp (nextBlockHeight chain)) (seg ++ f :: pre) = some hash :=
    findSetHash_isSome hfirst
  refine ⟨above, d, tail, setHash, hown, hdc, hdh, habove, by rw [hrest, hhash], ?_⟩
  have hbelow : below CBlockIndex.hash e.hash chain =
      above ++ (d :: (tail ++ (carried ++ pre))) := by
    have hnodup := hwp.nodup
    have hchain : chain = post ++ e :: (own' ++ (carried ++ pre)) := by
      rw [h.chain_eq, hown']
      rfl
    rw [hchain] at hnodup ⊢
    rw [below_append_cons (key_ne_of_nodup hnodup), ← cons_append, ← hown', hown]
    simp
  have hle : ∀ b ∈ d :: (tail ++ carried), b.nHeight ≤ maxHeight := by
    intro b hb
    rcases mem_cons.mp hb with rfl | hb
    · exact hdh
    · have hwp' : WellPlaced ((post ++ above) ++ d :: (tail ++ carried ++ pre)) := by
        have : chain = (post ++ above) ++ d :: (tail ++ carried ++ pre) := by
          rw [h.chain_eq, hown]
          simp
        rwa [← this]
      exact (hwp'.height_lt b (mem_append_left _ hb)).le.trans hdh
  have hid : coinSetId G (G - 1) d = G := by simp [coinSetId, hdc]
  have hskip : ∀ b ∈ above, maxHeight < b.nHeight ∨
      coinSetId G (G - 1) b = 0 ∧ some b.hash ≠ info.firstBlock := by
    intro b hb
    refine (habove b hb).imp_right fun h0 => ⟨?_, habovene b (mem_append_right _ hb)⟩
    have h1 : countCoinInBlock b (G - 1) = 0 :=
      h.own_count b (by rw [hown]; exact mem_append_left _ hb) _ (by omega)
    simp [coinSetId, h0, h1]
  have hcoins : (coinSetOf G (G - 1) d).length ≠ 0 := by
    simp only [coinSetOf, hid, ne_eq, hG, not_false_eq_true, if_true]
    unfold countCoinInBlock at hdc
    split at hdc
    case h_1 coins hc => simpa [hc] using hdc
    case h_2 => exact absurd rfl hdc
  rw [getCoinSetForSpend, hs]
  simp only [hlast, hbelow]
  have hset : getAnonymitySetHash s (d :: (tail ++ (carried ++ pre))) G false
      (includeFirstBlockSetHash cp (nextBlockHeight chain)) = some setHash := by
    rw [getAnonymitySetHash, hs]
    simp [h.nCoins_ne_zero, hrest, hhash]
  rw [coinSetLoop_skip hskip, coinSetLoop_take hdh hid hG hset]
  cases seg with
  | nil =>
    rw [nil_append, List.cons.injEq] at hseg
    obtain ⟨rfl, htail⟩ := hseg
    simp [hfirst, htail]
  | cons d' seg =>
    rw [cons_append, List.cons.injEq] at hseg
    obtain ⟨rfl, htail⟩ := hseg
    rw [forall_mem_cons] at hsegne
    have htail' : tail ++ (carried ++ pre) = seg ++ f :: pre := by
      rw [← append_assoc, htail]
      simp
    rw [if_neg hsegne.1, htail', coinSetLoop_collect hcoins _ hfirst hsegne.2]
    · simp [htail]
    · intro b hb
      exact hle b (mem_cons_of_mem _ (by rwa [htail]))

lemma coinSetAtTip (hs : s.coinGroups G = some info) (hG : G ≠ 0) (cp) :
    ∃ e own' setHash, own = e :: own' ∧ countCoinInBlock e G ≠ 0 ∧ info.lastBlock = some e.hash ∧
      findSetHash G info.firstBlock (includeFirstBlockSetHash cp (nextBlockHeight chain))
        (e :: (own' ++ (carried ++ pre))) = some setHash ∧
      getCoinSetForSpend cp s chain (nextBlockHeight chain - 1 - (ZC_MINT_CONFIRMATIONS - 1)) G =
        some {
          numberOfCoins := ((own ++ carried).flatMap (coinSetOf G (G - 1))).length
          blockHash := some e.hash
          coins := (own ++ carried).flatMap (coinSetOf G (G - 1))
          setHash := setHash } := by
  obtain ⟨e, own', hown', he, hlast⟩ := h.newest
  have htip : ∀ b ∈ chain, b.nHeight ≤ nextBlockHeight chain - 1 - (ZC_MINT_CONFIRMATIONS - 1) := by
    intro b hb
    cases hc : chain with
    | nil =>
      rw [hc] at hb
      cases hb
    | cons tip rest =>
      rw [hc] at hb hwp
      have hb' : b.nHeight ≤ tip.nHeight := by
        rcases mem_cons.mp hb with rfl | hb
        · exact le_rfl
        · exact (hwp.2.2.1 b hb).le
      simp only [nextBlockHeight, ZC_MINT_CONFIRMATIONS]
      omega
  have heown : e ∈ own := by rw [hown']; exact mem_cons_self
  have hetip := htip e (by rw [h.chain_eq]; simp [heown])
  obtain ⟨above, d, tail, setHash, hown, -, -, habove, hset, heq⟩ :=
    h.coinSetForSpend hwp hs hG cp heown he hetip
  have hnil : above = [] := by
    cases above with
    | nil => rfl
    | cons b above =>
      rw [hown', cons_append, List.cons.injEq] at hown
      rcases habove b mem_cons_self with hb | hb
      · rw [← hown.1] at hb
        exact absurd hetip (not_le.mpr hb)
      · rw [← hown.1] at hb
        exact absurd hb he
  rw [hnil, nil_append, hown', List.cons.injEq] at hown
  obtain ⟨rfl, rfl⟩ := hown
  rw [hown']
  exact ⟨e, own', setHash, rfl, he, hlast, hset, heq⟩

lemma getCoinSet_eq (hs : s.coinGroups G = some info) (hG : G ≠ 0) (cp) :
    getCoinSet cp s chain G = some ((own ++ carried).flatMap (coinSetOf G (G - 1))) := by
  obtain ⟨e, own', setHash, -, -, -, -, hout⟩ := h.coinSetAtTip hwp hs hG cp
  rw [getCoinSet, hout, map_some]

end

lemma grow {ext post' own' carried' pre'} {start' : Nat}
    {info'} (h : GroupShape start chain G info post own carried pre)
    (h' : GroupShape start' (ext ++ chain) G info' post' own' carried' pre')
    (hwp : WellPlaced (ext ++ chain)) (hfirst : info'.firstBlock = info.firstBlock) :
    pre' = pre ∧ ∃ newer, own' ++ carried' = newer ++ (own ++ carried) := by
  obtain ⟨seg, f, hseg, hf⟩ := h.segment
  obtain ⟨seg', f', hseg', hf'⟩ := h'.segment
  have hnodup := hwp.nodup
  have hchain : ext ++ chain = (ext ++ post ++ seg) ++ f :: pre := by
    rw [h.chain_eq, ← append_assoc own, hseg]
    simp
  have hchain' : ext ++ chain = (post' ++ seg') ++ f' :: pre' := by
    rw [h'.chain_eq, ← append_assoc own', hseg']
    simp
  have hff : f' = f := by
    rw [hf, hf', Option.some.injEq] at hfirst
    exact inj_on_of_nodup_map hnodup (by rw [hchain']; simp) (by rw [hchain]; simp) hfirst
  subst hff
  rw [hchain] at hnodup
  obtain ⟨hpost, hpre⟩ := split_unique hnodup (hchain.symm.trans hchain')
  refine ⟨hpre.symm, ?_⟩
  rw [hseg, hseg']
  rcases append_eq_append_iff.mp hpost with ⟨y, hy, hs⟩ | ⟨y, hy, hs⟩
  · obtain ⟨e, own'', hown, he, -⟩ := h.newest
    cases y with
    | nil => exact ⟨[], by rw [hs]; simp⟩
    | cons c y =>
      have hc : c = e := by
        rw [hown, hs, cons_append, cons_append, cons_append, List.cons.injEq] at hseg
        exact hseg.1.symm
      have hmem : e ∈ post' := by rw [hy, hc]; simp
      exact absurd (h'.post_count e hmem G le_rfl) he
  · exact ⟨y, by rw [hs]; simp⟩

end GroupShape

lemma findReference_spec {hash} (hfirst : first = some f.hash) :
    ∃ newer d tail, seg ++ [f] = newer ++ d :: tail ∧
      findReference first hash (seg ++ f :: rest) = some (d :: (tail ++ rest)) ∧
      (d.hash = hash ∨ some d.hash = first) ∧ ∀ b ∈ newer, b.hash ≠ hash := by
  induction seg with
  | nil => exact ⟨[], f, [], rfl, by simp [findReference, hfirst], Or.inr hfirst.symm, by simp⟩
  | cons b seg ih =>
    by_cases hb : some b.hash = first ∨ b.hash = hash
    · refine ⟨[], b, seg ++ [f], rfl, ?_, hb.symm, by simp⟩
      simp only [cons_append, findReference, if_pos hb, append_assoc, nil_append]
    · obtain ⟨newer, d, tail, hsplit, hfind, hd, hnewer⟩ := ih
      refine ⟨b :: newer, d, tail, by simp [hsplit], ?_, hd, ?_⟩
      · simp only [cons_append, findReference, if_neg hb, hfind]
      · push Not at hb
        exact forall_mem_cons.mpr ⟨hb.2, hnewer⟩

lemma loadCoverSet_eq {previousId : Int} (hfirst : first = some f.hash)
    (hseg : ∀ b ∈ seg, b.hash ≠ f.hash) : loadCoverSet G previousId first (seg ++ f :: rest) =
      some ((seg ++ [f]).flatMap (coinSetOf G previousId)) := by
  subst hfirst
  simp only [loadCoverSet, coverSetBlocks, upTo_append_cons hseg, map_some]

end

end Firo.Spark
