import Firo.Spark.NodeInv

/-! A wallet, the proof batch and the validator collect the coins of a group with walks of their
own. While the chain grows, a group keeps its first block and grows at its newest end only, so that
a block reference keeps its cover set. -/
namespace Firo.Spark

open Firo.Lib CSparkState CBlockIndex
open List hiding lt_irrefl

variable {Coin Tag Proof : Type} [DecidableEq Coin] [DecidableEq Tag]

variable {post own carried pre : List (CBlockIndex Coin Tag)}

section

variable {s : CSparkState Coin Tag} {ext chain : List (CBlockIndex Coin Tag)} {G : Int}
  {info : SparkCoinGroupInfo} {maxCoinInGroup startGroupSize : Nat}

lemma build_firstBlock (hwp : WellPlaced (ext ++ chain))
    (h : (buildSparkStateFromIndex maxCoinInGroup startGroupSize chain).coinGroups G = some info) :
    ∃ info', (buildSparkStateFromIndex maxCoinInGroup startGroupSize (ext ++ chain)).coinGroups G =
      some info' ∧ info'.firstBlock = info.firstBlock := by
  induction ext with
  | nil => exact ⟨info, h, rfl⟩
  | cons b ext ih =>
    obtain ⟨hwp', -, -, hb⟩ := hwp
    obtain ⟨info', hinfo', hfirst⟩ := ih hwp'
    change ∃ info', ((buildSparkStateFromIndex maxCoinInGroup startGroupSize (ext ++
      chain)).addBlock
      b (ext ++ chain)).coinGroups G = some info' ∧ info'.firstBlock = info.firstBlock
    obtain hb | ⟨id, coins, hb, -⟩ := hb
    · rw [addBlock_of_noMints _ hb, addSpends_coinGroups]
      exact ⟨info', hinfo', hfirst⟩
    · rw [addBlock_coinGroups _ hb]
      by_cases hid : G = id
      · subst hid
        obtain ⟨post, own, carried, pre, hshape⟩ :=
          (groupsInv_build maxCoinInGroup startGroupSize hwp').shape G info' hinfo'
        obtain ⟨seg, f, -, hf⟩ := hshape.segment
        rw [Function.update_self, grownGroup_of_some _ hinfo' hf]
        exact ⟨_, rfl, hfirst⟩
      · rw [Function.update_of_ne hid]
        exact ⟨info', hinfo', hfirst⟩

/-- A group of the state is empty and without coins, or is the one that a replay of the chain gives.
-/
lemma StateInv.group_cases (h : StateInv s chain) (hgroup : s.coinGroups G = some info) :
    (info = {} ∧ ∀ b ∈ chain, countCoinInBlock b G = 0) ∨
      (s.replay chain).coinGroups G = some info ∧ 1 ≤ G ∧ ∃ post own carried pre,
        GroupShape s.startGroupSize chain G info post own carried pre := by
  rcases h.agrees.groups_eq G with heq | ⟨-, -, hempty, hnone⟩
  · right
    rw [heq] at hgroup
    have hshape := h.groupsInv.shape G info hgroup
    rw [← h.agrees.startGroupSize_eq] at hshape
    exact ⟨hgroup, (h.groupsInv.bounds G info hgroup).1, hshape⟩
  · left
    rw [hempty] at hgroup
    exact ⟨(Option.some.inj hgroup).symm, h.groupsInv.none_count G hnone⟩

omit [DecidableEq Coin] [DecidableEq Tag] in
lemma GroupShape.mem_own {start : Nat} (h : GroupShape start chain G info post own carried pre)
    {o} (ho : o ∈ chain) (hcount : countCoinInBlock o G ≠ 0) : o ∈ own := by
  rw [h.chain_eq] at ho
  simp only [mem_append] at ho
  rcases ho with ho | ho | ho | ho
  · exact absurd (h.post_count o ho G le_rfl) hcount
  · exact ho
  · exact absurd (h.carried_count o ho G (by omega)) hcount
  · exact absurd (h.pre_count o ho G le_rfl) hcount

end

section

variable {chain post own carried pre newer tail rest :
  List (CBlockIndex Coin Tag)} {d : CBlockIndex Coin Tag} {G : Int} {info : SparkCoinGroupInfo}
  {start : Nat} {first : BlockPtr}

omit [DecidableEq Coin] [DecidableEq Tag] in
lemma findReference_append (hnewer : ∀ b ∈ newer, some b.hash ≠ first ∧ b.hash ≠ d.hash) :
    findReference first d.hash (newer ++ d :: rest) = some (d :: rest) := by
  induction newer with
  | nil => simp [findReference]
  | cons b newer ih =>
    rw [forall_mem_cons] at hnewer
    rw [cons_append, findReference, if_neg (by tauto), ih hnewer.2]

namespace GroupShape

section

omit [DecidableEq Coin] [DecidableEq Tag]

lemma below_last (h : GroupShape start chain G info post own carried pre)
    (hnodup : (chain.map hash).Nodup) {last} (hlast : info.lastBlock = some last) :
    below hash last chain = own ++ (carried ++ pre) := by
  obtain ⟨e, own', hown, -, he⟩ := h.newest
  rw [hlast] at he
  have hchain : chain = post ++ e :: (own' ++ (carried ++ pre)) := by
    rw [h.chain_eq, hown]
    rfl
  rw [hchain] at hnodup ⊢
  rw [Option.some.inj he, below_append_cons (key_ne_of_nodup hnodup), hown]
  rfl

lemma split_segment (h : GroupShape start chain G info post own carried pre)
    (hnodup : (chain.map hash).Nodup) (hseg : own ++ carried = newer ++ d :: tail) :
    ∃ seg f, d :: tail = seg ++ [f] ∧ info.firstBlock = some f.hash ∧
      (∀ b ∈ newer, b.hash ≠ f.hash ∧ b.hash ≠ d.hash) ∧ ∀ b ∈ seg, b.hash ≠ f.hash := by
  obtain ⟨seg₀, f, hseg₀, hfirst⟩ := h.segment
  obtain ⟨seg, g, hlast⟩ : ∃ seg g, d :: tail = seg ++ [g] :=
    ⟨_, _, (dropLast_append_getLast (cons_ne_nil d tail)).symm⟩
  have heq : (newer ++ seg) ++ [g] = seg₀ ++ [f] := by
    rw [← hseg₀, hseg, hlast, append_assoc]
  obtain rfl : g = f := singleton_inj.mp (append_inj' heq rfl).2
  have hchain : chain = (post ++ newer ++ seg) ++ g :: pre := by
    rw [h.chain_eq, ← append_assoc own, hseg, hlast]
    simp
  have hchain' : chain = (post ++ newer) ++ d :: (tail ++ pre) := by
    rw [h.chain_eq, ← append_assoc own, hseg]
    simp
  have hf := hnodup
  rw [hchain] at hf
  have hd := hnodup
  rw [hchain'] at hd
  refine ⟨seg, g, hlast, hfirst, fun b hb => ⟨?_, ?_⟩, fun b hb => ?_⟩
  · exact key_ne_of_nodup hf b (by simp [hb])
  · exact key_ne_of_nodup hd b (by simp [hb])
  · exact key_ne_of_nodup hf b (by simp [hb])

lemma walks (h : GroupShape start chain G info post own carried pre)
    (hnodup : (chain.map hash).Nodup) (hseg : own ++ carried = newer ++ d :: tail) :
    findReference info.firstBlock d.hash (own ++ (carried ++ pre)) = some (d :: (tail ++ pre)) ∧
      loadCoverSet G (G - 1) info.firstBlock (d :: (tail ++ pre)) =
        some ((d :: tail).flatMap (coinSetOf G (G - 1))) := by
  obtain ⟨seg, f, hlast, hfirst, hnewer, hne⟩ := h.split_segment hnodup hseg
  constructor
  · rw [← append_assoc, hseg, append_assoc, cons_append]
    apply findReference_append
    intro b hb
    rw [hfirst, ne_eq, Option.some.injEq]
    exact hnewer b hb
  · rw [← cons_append, hlast, append_assoc, singleton_append]
    exact loadCoverSet_eq hfirst hne

end

end GroupShape

end

variable {env : SparkEnv Coin Tag Proof} {cp : ConsensusParams} {n n' : Node Coin Tag Proof}

/-- The node `n'` has the chain of `n` and perhaps more blocks on top. -/
structure Extends (env : SparkEnv Coin Tag Proof) (cp : ConsensusParams)
    (n n' : Node Coin Tag Proof) : Prop where
  inv : NodeInv env cp n
  inv' : NodeInv env cp n'
  chain : ∃ ext, n'.chain = ext ++ n.chain
  maxCoinInGroup_eq : n'.sparkState.maxCoinInGroup = n.sparkState.maxCoinInGroup
  startGroupSize_eq : n'.sparkState.startGroupSize = n.sparkState.startGroupSize

def StaysAbove (n m : Node Coin Tag Proof) : Action Coin Tag → Prop
  | .disconnectTip _ => n.chain.length < m.chain.length
  | _ => True

lemma TipStep.frame {block} {index} {other} (h : NodeInv env cp n)
    (hstep : TipStep env cp other n block index n') : (∃ ext, n'.chain = ext ++ n.chain) ∧
      n'.sparkState.maxCoinInGroup = n.sparkState.maxCoinInGroup ∧
      n'.sparkState.startGroupSize = n.sparkState.startGroupSize := by
  cases hstep with
  | refused => exact ⟨⟨[], rfl⟩, rfl, rfl⟩
  | failed => exact ⟨⟨[], rfl⟩, rfl, rfl⟩
  | genesis hchain => exact ⟨⟨[index], by rw [hchain]; rfl⟩, rfl, rfl⟩
  | connected hnext _ n₁ b c =>
    refine ⟨⟨[b], rfl⟩, ?_⟩
    obtain ⟨-, -, -, ⟨-, hs, -⟩ | ⟨p, hp, hs, -⟩⟩ :=
      h.state.connect_cases hnext.height_lt c.state_eq
    · simp [hs]
    · obtain ⟨hmax, hstart, -⟩ := hp.frame
      simp [hs, hmax, hstart]

namespace Extends

lemma refl (h : NodeInv env cp n) : Extends env cp n n :=
  ⟨h, h, ⟨[], rfl⟩, rfl, rfl⟩

lemma trans {m} (h : Extends env cp n m) (h' : Extends env cp m n') : Extends env cp n n' := by
  obtain ⟨ext, hchain⟩ := h.chain
  obtain ⟨ext', hchain'⟩ := h'.chain
  exact ⟨h.inv, h'.inv', ⟨ext' ++ ext, by rw [hchain', hchain, append_assoc]⟩,
    h'.maxCoinInGroup_eq.trans h.maxCoinInGroup_eq,
    h'.startGroupSize_eq.trans h.startGroupSize_eq⟩

lemma step {m} {a} (h : Extends env cp n m)
    (hok : StaysAbove n m a) (hstep : m.step env cp a = some n') : Extends env cp n n' := by
  obtain ⟨hn, hm, ⟨ext, hchain⟩, hmax, hstart⟩ := h
  have hn' := hm.step hstep
  by_cases hc : ∃ block other, a = .connectTip block other
  · obtain ⟨block, other, rfl⟩ := hc
    obtain ⟨index, -, htip⟩ := hm.connectTip_cases hstep
    obtain ⟨⟨ext', hchain'⟩, hmax', hstart'⟩ := htip.frame hm
    exact ⟨hn, hn', ⟨ext' ++ ext, by rw [hchain', hchain, append_assoc]⟩,
      hmax'.trans hmax, hstart'.trans hstart⟩
  by_cases hd : ∃ batching, a = .disconnectTip batching
  · obtain ⟨batching, rfl⟩ := hd
    obtain ⟨b, p, rest, s, batch, htip, hs, rfl⟩ := disconnectTip_eq_some hstep
    obtain ⟨-, hstate⟩ := hm
    rw [htip] at hstate
    obtain ⟨hmax', hstart'⟩ := hstate.removeBlock_frame hs
    refine ⟨hn, hn', ?_, hmax'.trans hmax, hstart'.trans hstart⟩
    -- the tip is above the chain of `n`
    cases ext with
    | nil =>
      change n.chain.length < m.chain.length at hok
      rw [hchain, nil_append] at hok
      exact absurd hok (lt_irrefl _)
    | cons c ext =>
      rw [htip, cons_append, List.cons.injEq] at hchain
      exact ⟨ext, hchain.2⟩
  · have heq := Node.sparkEq_of_step hstep (fun block other ha => hc ⟨block, other, ha⟩)
      (fun batching ha => hd ⟨batching, ha⟩)
    exact ⟨hn, hn', ⟨ext, heq.chain.trans hchain⟩, by rw [heq.sparkState, hmax],
      by rw [heq.sparkState, hstart]⟩

lemma of_reach (h : NodeInv env cp n) (hreach : Reach (Node.step env cp) (StaysAbove n) n n') :
    Extends env cp n n' :=
  hreach.invariant (I := Extends env cp n) (refl h) (fun _ _ _ hm hok hstep => hm.step hok hstep)

lemma grown (h : Extends env cp n n') {G : Int} {info}
    (hgroup : (n.sparkState.replay n.chain).coinGroups G = some info)
    (hshape : GroupShape n.sparkState.startGroupSize n.chain G info post own carried pre) :
    ∃ info' post' own' carried' newer, n'.sparkState.coinGroups G = some info' ∧
      info'.firstBlock = info.firstBlock ∧
      GroupShape n'.sparkState.startGroupSize n'.chain G info' post' own' carried' pre ∧
      own' ++ carried' = newer ++ (own ++ carried) := by
  obtain ⟨ext, hchain⟩ := h.chain
  have hs' := h.inv'.state
  have hwp := hs'.wellPlaced
  have hreplay : n'.sparkState.replay n'.chain = buildSparkStateFromIndex
      n.sparkState.maxCoinInGroup n.sparkState.startGroupSize n'.chain := by
    rw [replay, h.maxCoinInGroup_eq, h.startGroupSize_eq]
  rw [hchain] at hwp
  obtain ⟨info', hinfo', hfirst⟩ := build_firstBlock hwp hgroup
  rw [← hchain, ← hreplay] at hinfo'
  have hlive := hs'.agrees.group_of_some hinfo'
  obtain ⟨post', own', carried', pre', hshape'⟩ := hs'.groupsInv.shape G info' hinfo'
  rw [← hs'.agrees.startGroupSize_eq] at hshape'
  have hshape'' := hshape'
  rw [hchain] at hshape''
  obtain ⟨rfl, newer, hnewer⟩ := hshape.grow hshape'' hwp hfirst
  exact ⟨info', post', own', carried', newer, hlive, hfirst, hshape', hnewer⟩

end Extends

section

variable {G : Int} {info : SparkCoinGroupInfo} {d : CBlockIndex Coin Tag}
  {post own carried pre newer tail : List (CBlockIndex Coin Tag)} {wireGroupId : UInt64}

lemma int32_pred (hwire : int32 wireGroupId.toNat = G) (hG : 1 ≤ G) :
    int32 (wireGroupId - 1).toNat = G - 1 := by
  have hlt := wireGroupId.toNat_lt
  rw [int32_eq] at hwire ⊢
  have hsub : (wireGroupId - 1).toNat = wireGroupId.toNat - 1 := by
    rw [UInt64.toNat_sub_of_le]
    · rfl
    · rw [UInt64.le_iff_toNat_le]
      change 1 ≤ wireGroupId.toNat
      omega
  omega

lemma coverSetSource_eq {start : Nat} (hn : NodeInv env cp n)
    (hgroup : n.sparkState.coinGroups G = some info) (hG : 1 ≤ G)
    (hshape : GroupShape start n.chain G info post own carried pre)
    (hseg : own ++ carried = newer ++ d :: tail) {g : SpendGates} {setHash}
    (hset : findSetHash G info.firstBlock g.useBoundCoverSetHash (d :: (tail ++ pre)) =
      some setHash) (txHash) (hwire : int32 wireGroupId.toNat = G) :
    coverSetSource (n.view false) g txHash wireGroupId d.hash = (do
      rejectIf (g.enforceBoundCoverSetHash &&
          decide (0 < ((d :: tail).flatMap (coinSetOf G (G - 1))).length) && setHash.length != 32)
        (g.dos REJECT_INVALID
          "CheckSparkSpendTransaction: cover set is not bound to a canonical state hash")
      .ok (⟨G, G - 1, d :: (tail ++ pre), info.firstBlock,
          ((d :: tail).flatMap (coinSetOf G (G - 1))).length⟩,
        ⟨((d :: tail).flatMap (coinSetOf G (G - 1))).length, setHash ++ uint256Bytes txHash⟩)) := by
  have hnodup := hn.state.wellPlaced.nodup
  obtain ⟨hfind, hload⟩ := hshape.walks hnodup hseg
  obtain ⟨e, -, -, -, hlast⟩ := hshape.newest
  have hsize := coverSetSize_eq G (G - 1) info.firstBlock (d :: (tail ++ pre))
  rw [hload, Option.map_some] at hsize
  have hhash : getAnonymitySetHash n.sparkState (d :: (tail ++ pre)) G false
      g.useBoundCoverSetHash = some setHash := by
    rw [getAnonymitySetHash, hgroup]
    simp [hshape.nCoins_ne_zero, hset]
  unfold coverSetSource
  simp only [hwire, int32_pred hwire hG, Node.view, hgroup, orReject_some, except_ok_bind, hlast,
    hshape.below_last hnodup hlast, hfind, head?_cons, Option.map_some, bne_self_eq_false,
    Bool.false_and, rejectIf_false, hhash, hsize]

end

section

variable {maxCoinInGroup startGroupSize : Nat}
  {ok : Node Coin Tag Proof → Action Coin Tag → Prop}

lemma nextBlockHeight_nonneg (h : Reachable env cp maxCoinInGroup startGroupSize ok n) :
    0 ≤ nextBlockHeight n.chain := by
  have hheights : ∀ b ∈ n.chain, 0 ≤ b.nHeight := by
    apply h.spark_induction (I := fun n => ∀ b ∈ n.chain, 0 ≤ b.nHeight)
    · exact nofun
    · intro n n' block other index hn hI _ _ hentry htip
      cases htip with
      | refused => exact hI
      | failed => exact hI
      | genesis hchain =>
        obtain ⟨-, rfl⟩ := Node.indexOf_nil hchain hentry
        simp
      | connected hnext _ n₁ b c =>
        rw [forall_mem_cons]
        refine ⟨?_, hI⟩
        rw [(c.result hn.namesInv hnext.recordable).height_eq, ← hnext.next]
        unfold nextBlockHeight
        split
        case h_1 => exact le_rfl
        case h_2 tip rest hchain =>
          have htip := hI tip (by simp [hchain])
          omega
    · intro n n' batching _ hI hstep
      obtain ⟨b, p, rest, s, batch, hchain, -, rfl⟩ := disconnectTip_eq_some hstep
      exact fun c hc => hI c (hchain ▸ mem_cons_of_mem b hc)
    · intro n n' heq hI
      rwa [heq.chain]
  unfold nextBlockHeight
  split
  case h_1 => exact le_rfl
  case h_2 tip rest hchain =>
    have htip := hheights tip (by simp [hchain])
    omega

lemma includeFirstBlockSetHash_eq (h : Reachable env cp maxCoinInGroup startGroupSize ok n)
    (hheight : nextBlockHeight n.chain ≠ INT_MAX) :
    includeFirstBlockSetHash cp (nextBlockHeight n.chain) =
      decide (cp.nSparkChaumV2StartBlock ≤ nextBlockHeight n.chain) := by
  have hnonneg := nextBlockHeight_nonneg h
  unfold includeFirstBlockSetHash
  rw [if_neg (by omega)]

/-- The cover set that `GetCoinSetForSpend` gives a spender for a height from which on the
group has mints is the one that the validator counts and loads from the block reference,
with the same set hash, while the chain grows on one side of the second version's start. -/
theorem validator_agrees_with_spender
    (h : Reachable env cp maxCoinInGroup startGroupSize ok n) {G : Int}
    {info : SparkCoinGroupInfo} (hgroup : n.sparkState.coinGroups G = some info)
    {o : CBlockIndex Coin Tag} (ho : o ∈ n.chain) (hcount : countCoinInBlock o G ≠ 0)
    {maxHeight : Int} (hheight : o.nHeight ≤ maxHeight)
    (hlater : Reach (Node.step env cp) (fun _ a => ∀ batching, a ≠ .disconnectTip batching) n n')
    (hsentinel : nextBlockHeight n.chain ≠ INT_MAX)
    (hside : cp.nSparkChaumV2StartBlock ≤ nextBlockHeight n.chain ↔
      cp.nSparkChaumV2StartBlock ≤ nextBlockHeight n'.chain)
    (tx : CTransaction) (isMempoolAcceptance : Bool) (txHash : Uint256) {wireGroupId : UInt64}
    (hwire : int32 wireGroupId.toNat = G) :
    ∃ out blockHash source, getCoinSetForSpend cp n.sparkState n.chain maxHeight G = some out ∧
      out.blockHash = some blockHash ∧
      source.referenceBlock.head?.map CBlockIndex.hash = some blockHash ∧
      source.size = out.coins.length ∧
      (∀ g, g = spendGates cp tx (nextBlockHeight n'.chain) isMempoolAcceptance →
        coverSetSource (n'.view false) g txHash wireGroupId blockHash = (do
          rejectIf (g.enforceBoundCoverSetHash && decide (0 < out.coins.length) &&
              out.setHash.length != 32)
            (g.dos REJECT_INVALID
              "CheckSparkSpendTransaction: cover set is not bound to a canonical state hash")
          .ok (source, ⟨out.coins.length, out.setHash ++ uint256Bytes txHash⟩))) ∧
      ∀ sources data, sources.lookup wireGroupId = some (source, data) →
        coverSetProvider sources wireGroupId = some out.coins := by
  have hn := nodeInv_of_reachable h
  have hext : Extends env cp n n' := Extends.of_reach hn (hlater.mono fun m a hok => by
    cases a with
    | disconnectTip batching => exact absurd rfl (hok batching)
    | _ => trivial)
  obtain ⟨-, hnone⟩ | ⟨hreplay, hG, post, own, carried, pre, hshape⟩ := hn.state.group_cases hgroup
  · exact absurd (hnone o ho) hcount
  obtain ⟨above, d, tail, setHash, hown, -, -, -, hset, hout⟩ :=
    hshape.coinSetForSpend hn.state.wellPlaced hgroup (by omega) cp (hshape.mem_own ho hcount)
      hcount hheight
  obtain ⟨info', post', own', carried', newer, hgroup', hfirst, hshape', hnewer⟩ :=
    hext.grown hreplay hshape
  have hseg : own' ++ carried' = (newer ++ above) ++ d :: (tail ++ carried) := by
    rw [hnewer, hown]
    simp
  rw [includeFirstBlockSetHash_eq h hsentinel, decide_eq_decide.mpr hside,
    ← append_assoc, ← hfirst] at hset
  refine ⟨_, d.hash, ⟨G, G - 1, d :: ((tail ++ carried) ++ pre), info'.firstBlock, _⟩, hout, rfl,
    rfl, rfl, ?_, ?_⟩
  · rintro g rfl
    exact coverSetSource_eq hext.inv' hgroup' hG hshape' hseg hset txHash hwire
  · intro sources data hlookup
    obtain ⟨-, hload⟩ := hshape'.walks hext.inv'.state.wellPlaced.nodup hseg
    unfold coverSetProvider
    rw [hlookup]
    simp only [hload, if_true]

end

theorem validator_agrees_with_spender_twoMints :
    ∃ (n n' : Node Toy.Coin UInt8 Toy.Coin) (out : CoinSetForSpend Toy.Coin)
      (source : CoverSetSource Toy.Coin UInt8),
      Reachable Toy.env (Toy.params 1) 3 1 (fun _ _ => True) n ∧
      n.step Toy.env (Toy.params 1) (Toy.connect 2 [Toy.mintTx 2 [(8, 50)]]) = some n' ∧
      getCoinSetForSpend (Toy.params 1) n.sparkState n.chain 1 1 = some out ∧
      source.size = out.coins.length ∧
      coverSetProvider [(1, source, ⟨0, []⟩)] 1 = some out.coins := by
  have hrun : ([Toy.connect 0 [], Toy.connect 1 [Toy.mintTx 1 [(7, 50)]]].foldlM
      (Node.step Toy.env (Toy.params 1)) (Node.initial 3 1)).any (fun n =>
        (n.sparkState.coinGroups 1).isSome && nextBlockHeight n.chain == 2 &&
        (n.chain.any fun o => decide (countCoinInBlock o 1 ≠ 0 ∧ o.nHeight ≤ 1)) &&
        (n.step Toy.env (Toy.params 1) (Toy.connect 2 [Toy.mintTx 2 [(8, 50)]])).any fun n' =>
          nextBlockHeight n'.chain == 3) = true := by
    decide +kernel
  obtain ⟨n, hn, htest⟩ := (Option.any_eq_true ..).mp hrun
  simp only [Bool.and_eq_true, Option.isSome_iff_exists, beq_iff_eq, any_eq_true,
    decide_eq_true_eq, Option.any_eq_true] at htest
  obtain ⟨⟨⟨⟨info, hinfo⟩, hnext⟩, o, ho, hcount, hheight⟩, n', hstep, hnext'⟩ := htest
  have hreach : Reachable Toy.env (Toy.params 1) 3 1 (fun _ _ => True) n :=
    Reach.of_foldlM .init (fun _ _ _ => trivial) hn
  have hlater : Reach (Node.step Toy.env (Toy.params 1))
      (fun _ a => ∀ batching, a ≠ Action.disconnectTip batching) n n' :=
    .step _ .init (fun batching h => by cases h) hstep
  obtain ⟨out, -, source, hout, -, -, hsize, -, hload⟩ := validator_agrees_with_spender hreach
    hinfo ho hcount hheight hlater (by rw [hnext]; decide) (by rw [hnext, hnext']; decide)
    (Toy.spendSeven 3 1 1 20) false 0 (show int32 (1 : UInt64).toNat = 1 by decide)
  exact ⟨n, n', out, source, hreach, hstep, hout, hsize, hload _ _ rfl⟩

end Firo.Spark
