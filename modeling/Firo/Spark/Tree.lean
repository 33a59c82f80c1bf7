import Firo.Spark.NameBlock
import Firo.Spark.NameUndo
import Firo.Spark.Step

/-! The blocks that a node ever connected form a tree, and a block keeps its height and the names
behind it however often the tip moves. This is what makes the lists of names in the block index fit
when a block is connected again. -/
namespace Firo.Spark

open Firo.Lib CSparkNameManager List CBlockIndex
open Function (update_of_ne update_self update)

variable {Coin Tag : Type}

/-- A block that was connected, with its height and the names behind it. -/
structure Known where
  block : CBlock
  nHeight : Int
  names : String → Option NameCore

def Known.own (k : Known) (env : NameEnv) (cp : ConsensusParams) :
    Std.ExtTreeMap String CSparkNameTxData :=
  blockNames env cp k.nHeight k.block.vtx

def CBlockIndex.own (b : CBlockIndex Coin Tag) (env : NameEnv) (cp : ConsensusParams) :
    Std.ExtTreeMap String CSparkNameTxData :=
  blockNames env cp b.nHeight b.block.vtx

structure Known.Child (env : NameEnv) (cp : ConsensusParams) (p k : Known) : Prop where
  prev_eq : k.block.hashPrevBlock = p.block.hash
  height_eq : k.nHeight = p.nHeight + 1
  names_eq : k.names = nextCore p.names cp k.nHeight (k.own env cp)

def Known.genesis (cp : ConsensusParams) : Known :=
  ⟨cp.genesis, 0, fun _ => none⟩

structure CBlockIndex.Of (b : CBlockIndex Coin Tag) (k : Known) : Prop where
  block_eq : b.block = k.block
  height_eq : b.nHeight = k.nHeight

section

variable (env : NameEnv) (cp : ConsensusParams) (know : Uint256 → Option Known)

/-- The blocks of the chain are known, from the genesis block on, and each has the lists
of names that connecting it on the block below records. -/
def ChainKnown : List (CBlockIndex Coin Tag) → Prop
  | [] => True
  | [g] => g.Of (Known.genesis cp) ∧ know g.hash = some (Known.genesis cp)
  | b :: p :: chain => (∃ kb kp, know b.hash = some kb ∧ know p.hash = some kp ∧ b.Of kb ∧
      p.Of kp ∧ kp.Child env cp kb ∧ Recorded kp.names cp (b.own env cp) b) ∧
      ChainKnown (p :: chain)

/-- What is known about an index that is not on the chain: it belongs on a known block,
and holds no name that connecting it there would not record. -/
structure IndexKnown (h : Uint256) (b : CBlockIndex Coin Tag) : Prop where
  hash_eq : b.hash = h
  parent : ∃ kp, know b.block.hashPrevBlock = some kp ∧ b.nHeight = kp.nHeight + 1 ∧
    Recordable kp.names cp (b.own env cp) b
  block_eq : ∀ k, know h = some k → k.block = b.block

/-- The chain, the other indexes and the names of a node, with what it knows. -/
structure TreeInv (chain : List (CBlockIndex Coin Tag))
    (blockIndex : Uint256 → Option (CBlockIndex Coin Tag)) (m : CSparkNameManager) : Prop where
  names : NamesInv m
  chain_known : ChainKnown env cp know chain
  nodup : (chain.map CBlockIndex.hash).Nodup
  core_eq : m.core = match chain with
    | [] => fun _ => none
    | b :: _ => ((know b.hash).map Known.names).getD fun _ => none
  index_known : ∀ h b, blockIndex h = some b → h ∉ chain.map CBlockIndex.hash ∧
    (chain ≠ [] → IndexKnown env cp know h b) ∧ (chain = [] → h = cp.genesis.hash)
  known : ∀ h k, know h = some k → k.block.hash = h ∧ CoreInv k.names ∧
    (k = Known.genesis cp ∨ ∃ kp, know kp.block.hash = some kp ∧ kp.Child env cp k)
  stored : ∀ h k, know h = some k → h ∈ chain.map CBlockIndex.hash ∨ (blockIndex h).isSome
  unknown : chain = [] → ∀ h, know h = none

end

variable {env : NameEnv} {cp : ConsensusParams} {know : Uint256 → Option Known}
  {chain : List (CBlockIndex Coin Tag)} {blockIndex : Uint256 → Option (CBlockIndex Coin Tag)}
  {m m' : CSparkNameManager} {block : CBlock} {index b : CBlockIndex Coin Tag}

lemma blockIndexEntry_eq_some (h : blockIndexEntry cp chain blockIndex block = some index) :
    (chain = [] ∧ block = cp.genesis ∧ index = { block, nHeight := 0 }) ∨
    ∃ tip rest, chain = tip :: rest ∧ block.hashPrevBlock = tip.hash ∧ block.hash ∉ chain.map hash ∧
      (blockIndex block.hash = some index ∧ index.block = block ∨
        blockIndex block.hash = none ∧ index = { block, nHeight := tip.nHeight + 1 }) := by
  unfold blockIndexEntry at h
  split at h
  case h_1 =>
    split at h
    case isTrue hgenesis => exact .inl ⟨rfl, hgenesis, (Option.some.inj h).symm⟩
    case isFalse => cases h
  case h_2 tip rest =>
    split at h
    case isFalse => cases h
    case isTrue hprev =>
      have hnew : block.hash ∉ (tip :: rest).map hash := by simpa using hprev.2
      refine .inr ⟨tip, rest, rfl, hprev.1, hnew, ?_⟩
      split at h
      case h_1 known hknown =>
        split at h
        case isTrue hblock =>
          cases h
          exact .inl ⟨hknown, hblock⟩
        case isFalse => cases h
      case h_2 hnone => exact .inr ⟨hnone, (Option.some.inj h).symm⟩

namespace ChainKnown

lemma mono {know'} (hle : ∀ h k, know h = some k → know' h = some k)
    (hc : ChainKnown env cp know chain) : ChainKnown env cp know' chain := by
  induction chain with
  | nil => trivial
  | cons b chain ih =>
    cases chain with
    | nil => exact ⟨hc.1, hle _ _ hc.2⟩
    | cons p chain =>
      obtain ⟨⟨kb, kp, hb, hp, hrest⟩, htail⟩ := hc
      exact ⟨⟨kb, kp, hle _ _ hb, hle _ _ hp, hrest⟩, ih htail⟩

lemma tip (hc : ChainKnown env cp know (b :: chain)) : ∃ k, know b.hash = some k ∧ b.Of k := by
  cases chain with
  | nil => exact ⟨_, hc.2, hc.1⟩
  | cons p chain =>
    obtain ⟨kb, -, hb, -, hof, -⟩ := hc.1
    exact ⟨kb, hb, hof⟩

lemma genesis_mem (hc : ChainKnown env cp know chain) (hne : chain ≠ []) :
    cp.genesis.hash ∈ chain.map hash := by
  induction chain with
  | nil => exact absurd rfl hne
  | cons b chain ih =>
    cases chain with
    | nil =>
      rw [map_singleton, mem_singleton]
      exact (congrArg CBlock.hash hc.1.block_eq).symm
    | cons p chain => exact mem_cons_of_mem _ (ih hc.2 (cons_ne_nil _ _))

end ChainKnown

lemma IndexKnown.mono {know'} (hle : ∀ h k, know h = some k → know' h = some k) {h : Uint256}
    (heq : know' h = know h) (hb : IndexKnown env cp know h b) : IndexKnown env cp know' h b := by
  obtain ⟨kp, hkp, hrest⟩ := hb.parent
  refine ⟨hb.hash_eq, ⟨kp, hle _ _ hkp, hrest⟩, fun k hk => ?_⟩
  exact hb.block_eq k (heq ▸ hk)

namespace TreeInv

lemma initial : TreeInv env cp (fun _ => none) ([] : List (CBlockIndex Coin Tag))
    (fun _ => none) {} where
  names := NamesInv.empty
  chain_known := trivial
  nodup := nodup_nil
  core_eq := by
    funext k
    simp [core]
  index_known := by
    intro h b hb
    cases hb
  known := by
    intro h k hk
    cases hk
  stored := by
    intro h k hk
    cases hk
  unknown := fun _ _ => rfl

lemma connect_genesis (h : TreeInv env cp know [] blockIndex m) (hb : b.Of (Known.genesis cp)) :
    TreeInv env cp (update know cp.genesis.hash (some (Known.genesis cp))) [b]
      (update blockIndex cp.genesis.hash none) m := by
  have hhash : b.hash = cp.genesis.hash := congrArg CBlock.hash hb.block_eq
  have hnone := h.unknown rfl
  refine ⟨h.names, ⟨hb, by rw [hhash, update_self]⟩, nodup_singleton _, ?_, ?_,
    ?_, ?_, fun hnil => by cases hnil⟩
  · rw [h.core_eq]
    simp only [hhash, update_self]
    rfl
  · intro h' b' hb'
    by_cases hh : h' = cp.genesis.hash
    · rw [hh, update_self] at hb'
      cases hb'
    · rw [update_of_ne hh] at hb'
      exact absurd ((h.index_known h' b' hb').2.2 rfl) hh
  · intro h' k hk
    by_cases hh : h' = cp.genesis.hash
    · rw [hh, update_self] at hk
      cases hk
      refine ⟨hh.symm, ⟨?_, ?_⟩, .inl rfl⟩
      · intro k x hx
        cases hx
      · intro k k' x x' hx
        cases hx
    · rw [update_of_ne hh, hnone] at hk
      cases hk
  · intro h' k hk
    by_cases hh : h' = cp.genesis.hash
    · exact .inl (by simp [hh, hhash])
    · rw [update_of_ne hh, hnone] at hk
      cases hk

section

variable {tip : CBlockIndex Coin Tag} (h : TreeInv env cp know (tip :: chain) blockIndex m)
include h

lemma tip_known : ∃ k, know tip.hash = some k ∧ tip.Of k ∧ m.core = k.names := by
  obtain ⟨k, hk, hof⟩ := h.chain_known.tip
  refine ⟨k, hk, hof, ?_⟩
  rw [h.core_eq]
  simp [hk]

variable (hentry : blockIndexEntry cp (tip :: chain) blockIndex block = some index)
include hentry

lemma entry : index.block = block ∧ block.hashPrevBlock = tip.hash ∧
      block.hash ∉ (tip :: chain).map hash ∧ index.nHeight = tip.nHeight + 1 ∧
      Recordable m.core cp (index.own env cp) index := by
  obtain ⟨hnil, -⟩ | ⟨tip', rest, hchain, hprev, hnew, hindex⟩ := blockIndexEntry_eq_some hentry
  · cases hnil
  · obtain ⟨rfl, rfl⟩ := List.cons.inj hchain
    obtain ⟨kt, hkt, hof, hcore⟩ := h.tip_known
    obtain ⟨hknown, hblock⟩ | ⟨-, rfl⟩ := hindex
    · obtain ⟨-, hib, -⟩ := h.index_known _ _ hknown
      obtain ⟨kp, hkp, hheight, hrec⟩ := (hib (cons_ne_nil _ _)).parent
      rw [hblock, hprev, hkt, Option.some.injEq] at hkp
      subst hkp
      exact ⟨hblock, hprev, hnew, by rw [hheight, hof.height_eq], hcore ▸ hrec⟩
    · refine ⟨rfl, hprev, hnew, rfl, ?_, ?_⟩
      · intro k x hx
        simp [listCore] at hx
      · intro k x hx
        simp [listCore] at hx

lemma known_block {k : Known} (hk : know block.hash = some k) : k.block = block := by
  obtain ⟨hblock, -, hnew, -⟩ := h.entry hentry
  rcases h.stored _ _ hk with hmem | hsome
  · exact absurd hmem hnew
  · obtain ⟨index', hindex'⟩ := Option.isSome_iff_exists.mp hsome
    obtain ⟨hnil, -⟩ | ⟨-, -, -, -, -, ⟨hknown, -⟩ | ⟨hnone, -⟩⟩ := blockIndexEntry_eq_some hentry
    · cases hnil
    · rw [((h.index_known _ _ hknown).2.1 (cons_ne_nil _ _)).block_eq k hk, hblock]
    · cases hnone.symm.trans hindex'

lemma known_again (hcore : m'.core = nextCore m.core cp index.nHeight (index.own env cp))
    {k : Known} (hk : know block.hash = some k) : k = ⟨block, index.nHeight, m'.core⟩ := by
  obtain ⟨hblock, hprev, hnew, hheight, -⟩ := h.entry hentry
  obtain ⟨kt, hkt, hof, hnames⟩ := h.tip_known
  have hkblock : k.block = block := h.known_block hentry hk
  obtain ⟨-, -, rfl | ⟨kp, hkp, hchild⟩⟩ := h.known _ _ hk
  · have hmem := h.chain_known.genesis_mem (cons_ne_nil _ _)
    rw [show cp.genesis = block from hkblock] at hmem
    exact absurd hmem hnew
  · have hkp' : kp = kt := by
      rw [← hchild.prev_eq, hkblock, hprev, hkt] at hkp
      exact (Option.some.inj hkp).symm
    subst hkp'
    have hkheight : k.nHeight = index.nHeight := by
      rw [hchild.height_eq, hheight, hof.height_eq]
    have hown : k.own env cp = index.own env cp := by
      rw [Known.own, own, hkheight, hkblock, hblock]
    have hknames : k.names = m'.core := by
      rw [hchild.names_eq, hcore, hnames, hkheight, hown]
    obtain ⟨kb, kh, kn⟩ := k
    simp only at hkblock hkheight hknames
    rw [hkblock, hkheight, hknames]

lemma connect (hm' : NamesInv m')
    (hcore : m'.core = nextCore m.core cp index.nHeight (index.own env cp))
    (hb : b.block = index.block) (hbheight : b.nHeight = index.nHeight)
    (hrec : Recorded m.core cp (index.own env cp) b) :
    TreeInv env cp (update know block.hash (some ⟨block, index.nHeight, m'.core⟩))
      (b :: tip :: chain) (update blockIndex block.hash none) m' := by
  obtain ⟨hblock, hprev, hnew, hheight, -⟩ := h.entry hentry
  obtain ⟨kt, hkt, hof, hnames⟩ := h.tip_known
  have hktblock : kt.block.hash = tip.hash := (h.known _ _ hkt).1
  have hle : ∀ h' k, know h' = some k →
      update know block.hash (some ⟨block, index.nHeight, m'.core⟩) h' = some k := by
    intro h' k hk
    by_cases hh : h' = block.hash
    · subst hh
      rw [update_self, h.known_again hentry hcore hk]
    · rwa [update_of_ne hh]
  have hbhash : b.hash = block.hash := by
    rw [CBlockIndex.hash, hb, hblock]
  have hown : b.own env cp = index.own env cp := by
    rw [own, own, hb, hbheight]
  have hchild : kt.Child env cp ⟨block, index.nHeight, m'.core⟩ := by
    refine ⟨hprev.trans hktblock.symm, hheight.trans (by rw [hof.height_eq]), ?_⟩
    rw [hcore, hnames, own, hblock]
    rfl
  refine ⟨hm', ⟨⟨⟨block, index.nHeight, m'.core⟩, kt, ?_, hle _ _ hkt, ⟨hb.trans hblock, hbheight⟩,
    hof, hchild, ?_⟩, h.chain_known.mono hle⟩, ?_, ?_, ?_, ?_, ?_, fun hnil => by cases hnil⟩
  · rw [hbhash, update_self]
  · rw [hown, ← hnames]
    exact hrec
  · rw [map_cons, nodup_cons, hbhash]
    exact ⟨hnew, h.nodup⟩
  · simp only [hbhash, update_self]
    rfl
  · intro h' b' hb'
    have hh : h' ≠ block.hash := by
      rintro rfl
      rw [update_self] at hb'
      cases hb'
    rw [update_of_ne hh] at hb'
    obtain ⟨hnot, hib, -⟩ := h.index_known h' b' hb'
    refine ⟨?_, fun _ => ?_, fun hnil => by cases hnil⟩
    · rw [map_cons, mem_cons, hbhash, not_or]
      exact ⟨hh, hnot⟩
    · exact (hib (cons_ne_nil _ _)).mono hle (update_of_ne hh _ _)
  · intro h' k hk
    by_cases hh : h' = block.hash
    · subst hh
      rw [update_self] at hk
      cases hk
      exact ⟨rfl, hm'.coreInv, .inr ⟨kt, by rw [hktblock]; exact hle _ _ hkt, hchild⟩⟩
    · rw [update_of_ne hh] at hk
      obtain ⟨hkh, hinv, hg | ⟨kp, hkp, hc⟩⟩ := h.known h' k hk
      · exact ⟨hkh, hinv, .inl hg⟩
      · exact ⟨hkh, hinv, .inr ⟨kp, hle _ _ hkp, hc⟩⟩
  · intro h' k hk
    by_cases hh : h' = block.hash
    · exact .inl (by rw [hh, ← hbhash]; exact mem_cons_self)
    · rw [update_of_ne hh] at hk
      rcases h.stored h' k hk with hmem | hsome
      · exact .inl (mem_cons_of_mem _ hmem)
      · exact .inr (by rwa [update_of_ne hh])

end

lemma failed (h : TreeInv env cp know chain blockIndex m)
    (hentry : blockIndexEntry cp chain blockIndex block = some index) (hb : b.block = index.block)
    (hbheight : b.nHeight = index.nHeight) (hadded : b.addedSparkNames = index.addedSparkNames)
    (hremoved : b.removedSparkNames = index.removedSparkNames) :
    TreeInv env cp know chain (update blockIndex block.hash (some b)) m := by
  refine ⟨h.names, h.chain_known, h.nodup, h.core_eq, ?_, h.known, ?_, h.unknown⟩
  · intro h' b' hb'
    by_cases hh : h' = block.hash
    · subst hh
      rw [update_self] at hb'
      cases hb'
      cases chain with
      | nil =>
        obtain ⟨-, hgenesis, -⟩ | ⟨_, _, hcons, -⟩ := blockIndexEntry_eq_some hentry
        · exact ⟨by simp, fun hne => absurd rfl hne, fun _ => by rw [hgenesis]⟩
        · cases hcons
      | cons tip chain =>
        obtain ⟨hblock, hprev, hnew, hheight, hrec⟩ := h.entry hentry
        obtain ⟨kt, hkt, hof, hnames⟩ := h.tip_known
        refine ⟨hnew, fun _ => ⟨?_, ⟨kt, ?_, ?_, ?_⟩, fun k hk => ?_⟩, fun hnil => by cases hnil⟩
        · rw [CBlockIndex.hash, hb, hblock]
        · rw [hb, hblock, hprev, hkt]
        · rw [hbheight, hheight, hof.height_eq]
        · rw [← hnames, own, hb, hbheight]
          refine ⟨?_, ?_⟩
          · rw [hadded, hbheight]
            exact hrec.added
          · rw [hremoved, hbheight]
            exact hrec.removed
        · rw [h.known_block hentry hk, hb, hblock]
    · rw [update_of_ne hh] at hb'
      exact h.index_known h' b' hb'
  · intro h' k hk
    rcases h.stored h' k hk with hmem | hsome
    · exact .inl hmem
    · right
      by_cases hh : h' = block.hash
      · rw [hh, update_self]
        rfl
      · rwa [update_of_ne hh]

lemma disconnecting {p} (h : TreeInv env cp know (b :: p :: chain) blockIndex m) :
    ∃ kp, know p.hash = some kp ∧ p.Of kp ∧
      Disconnecting kp.names cp (b.own env cp) m b := by
  obtain ⟨kb, kp, hkb, hkp, hbof, hpof, hchild, hrec⟩ := h.chain_known.1
  refine ⟨kp, hkp, hpof, h.names, (h.known _ _ hkp).2.1, fun k => upper_blockNames, hrec, ?_⟩
  rw [h.core_eq]
  simp only [hkb, Option.map_some, Option.getD_some]
  rw [hchild.names_eq, own, Known.own, hbof.block_eq, hbof.height_eq]

lemma disconnect {p} (h : TreeInv env cp know (b :: p :: chain) blockIndex m) :
    TreeInv env cp know (p :: chain) (update blockIndex b.hash (some b))
      (m.removeBlock b) := by
  obtain ⟨kp, hkp, hpof, hdis⟩ := h.disconnecting
  obtain ⟨kb, kp', hkb, hkp', hbof, -, hchild, hrec⟩ := h.chain_known.1
  obtain rfl : kp = kp' := Option.some.inj (hkp.symm.trans hkp')
  have hpblock : kp.block.hash = p.hash := (h.known _ _ hkp).1
  have hnodup := h.nodup
  rw [map_cons, nodup_cons] at hnodup
  refine ⟨hdis.namesInv_removeBlock, h.chain_known.2, hnodup.2, ?_, ?_, h.known, ?_,
    fun hnil => by cases hnil⟩
  · rw [hdis.core_removeBlock]
    simp [hkp]
  · intro h' b' hb'
    refine ⟨?_, fun _ => ?_, fun hnil => by cases hnil⟩
    · by_cases hh : h' = b.hash
      · exact hh ▸ hnodup.1
      · rw [update_of_ne hh] at hb'
        exact fun hmem => (h.index_known h' b' hb').1 (mem_cons_of_mem _ hmem)
    · by_cases hh : h' = b.hash
      · subst hh
        rw [update_self] at hb'
        cases hb'
        refine ⟨rfl, ⟨kp, ?_, ?_, hrec.recordable⟩, fun k hk => ?_⟩
        · rw [hbof.block_eq, hchild.prev_eq, hpblock, hkp]
        · rw [hbof.height_eq, hchild.height_eq]
        · rw [Option.some.inj (hk.symm.trans hkb), hbof.block_eq]
      · rw [update_of_ne hh] at hb'
        exact (h.index_known h' b' hb').2.1 (cons_ne_nil _ _)
  · intro h' k hk
    by_cases hh : h' = b.hash
    · right
      rw [hh, update_self]
      rfl
    · rw [update_of_ne hh]
      rcases h.stored h' k hk with hmem | hsome
      · rw [map_cons, mem_cons] at hmem
        exact .inl (hmem.resolve_left hh)
      · exact .inr hsome

end TreeInv

end Firo.Spark
