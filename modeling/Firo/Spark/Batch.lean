import Firo.Spark.Accounting
import Firo.Spark.Growth

/-! While proofs are collected, a connected block leaves its spends in the batch, which is verified
later against the whole of each group. The cover set with which a spend was validated is the oldest
part of it. -/
namespace Firo.Spark

open Firo.Lib List Prod BatchProofContainer

variable {Coin Tag Proof : Type}

section

variable {v : View Coin Tag} {g : SpendGates} {txHash : Uint256} {refs : List (UInt64 × Uint256)}
  {sources : List (UInt64 × CoverSetSource Coin Tag × CoverSetData)}

section

variable (h : coverSetSources v g txHash refs = .ok sources)
include h

lemma coverSetSources_eq_ok : Forall₂ (fun ref entry => entry.1 = ref.1 ∧
      coverSetSource v g txHash ref.1 ref.2 = .ok entry.2) refs sources := by
  induction refs generalizing sources with
  | nil =>
    obtain rfl := Except.ok.inj h
    exact .nil
  | cons ref refs ih =>
    rw [coverSetSources] at h
    simp only [except_bind_eq_ok] at h
    obtain ⟨source, hsource, rest, hrest, hok⟩ := h
    obtain rfl := Except.ok.inj hok
    exact .cons ⟨rfl, hsource⟩ (ih hrest)

lemma coverSetSources_keys : sources.map fst = refs.map fst := by
  have hall := coverSetSources_eq_ok h
  clear h
  induction hall with
  | nil => rfl
  | cons hhead _ ih => simp [hhead.1, ih]

lemma coverSetSources_lookup {id} {entry} (hlookup : sources.lookup id = some entry) :
    ∃ hash, (id, hash) ∈ refs ∧ coverSetSource v g txHash id hash = .ok entry := by
  obtain ⟨l₁, l₂, rfl, -⟩ := lookup_eq_some_iff.mp hlookup
  obtain ⟨i, hi, heq⟩ := getElem_of_mem (mem_append_right l₁ mem_cons_self)
  have hall := coverSetSources_eq_ok h
  have hi' : i < refs.length := by rwa [hall.length_eq]
  obtain ⟨hid, hok⟩ := hall.get hi' hi
  simp only [get_eq_getElem, heq] at hid hok
  exact ⟨_, by rw [hid]; exact getElem_mem hi', hid ▸ hok⟩

end

end

lemma SpendTransaction.setCoverSets_sizes {data : List (UInt64 × CoverSetData)}
    (hnodup : (data.map fst).Nodup) (sp : SpendTransaction Coin Tag Proof) (id) :
    (sp.setCoverSets data).coverSetSizes id =
      ((data.lookup id).map CoverSetData.coverSetSize).or (sp.coverSetSizes id) := by
  induction data generalizing sp with
  | nil => rfl
  | cons entry data ih =>
    rw [map_cons, nodup_cons] at hnodup
    change (SpendTransaction.setCoverSets { sp with
      coverSetSizes := Function.update sp.coverSetSizes entry.1 (some entry.2.coverSetSize)
      coverSetRepresentations := Function.update sp.coverSetRepresentations entry.1
        (some entry.2.coverSetRepresentation) } data).coverSetSizes id = _
    rw [ih hnodup.2]
    by_cases hid : id = entry.1
    · subst hid
      have hnone : data.lookup entry.1 = none := by
        rw [lookup_eq_none_iff]
        intro p hp
        have hne : entry.1 ≠ p.1 := fun heq => hnodup.1 (heq ▸ mem_map_of_mem hp)
        simpa using hne
      simp [hnone, List.lookup]
    · have hne : (id == entry.1) = false := by simpa using hid
      simp [List.lookup, hne, Function.update_of_ne hid]

lemma lookup_map_snd {α β γ} [BEq α] {l : List (α × β × γ)} {a : α} :
    (l.map fun p => (p.1, p.2.2)).lookup a = (l.lookup a).map snd := by
  induction l with
  | nil => rfl
  | cons p l ih =>
    rw [map_cons, List.lookup, List.lookup]
    cases a == p.1 with
    | true => rfl
    | false => exact ih

lemma AcceptedSpend.coverSetSizes_eq {env : SparkEnv Coin Tag Proof} {cp} {v : View Coin Tag} {g}
    {tx} (a : AcceptedSpend env cp v g tx) {id} {entry : CoverSetSource Coin Tag × CoverSetData}
    (hlookup : a.sources.lookup id = some entry) :
    a.verified.coverSetSizes id = some entry.2.coverSetSize := by
  have hkeys := coverSetSources_keys a.sources_eq
  have hnodup : ((a.sources.map fun s => (s.1, s.2.2)).map fst).Nodup := by
    rw [List.map_map]
    change (a.sources.map fst).Nodup
    rw [hkeys, Std.ExtTreeMap.map_fst_toList_eq_keys]
    exact Std.ExtTreeMap.nodup_keys
  rw [(completeSpend_eq_ok a.verified_eq).1]
  change (SpendTransaction.setCoverSets _ _).coverSetSizes id = _
  rw [SpendTransaction.setCoverSets_sizes hnodup, lookup_map_snd, hlookup]
  rfl

section

variable [DecidableEq Coin] [DecidableEq Tag] {env : SparkEnv Coin Tag Proof}
  {cp : ConsensusParams} {n n' : Node Coin Tag Proof} {g : SpendGates} {txHash hash : Uint256}
  {wireGroupId : UInt64} {source : CoverSetSource Coin Tag} {data : CoverSetData}

/-- What the validator found for a reference: the group, and the block `d` of its segment
from which the cover set is taken. -/
structure Referenced (n : Node Coin Tag Proof) (wireGroupId : UInt64) (hash : Uint256)
    (source : CoverSetSource Coin Tag) where
  G : Int
  info : SparkCoinGroupInfo
  post : List (CBlockIndex Coin Tag)
  own : List (CBlockIndex Coin Tag)
  carried : List (CBlockIndex Coin Tag)
  pre : List (CBlockIndex Coin Tag)
  newer : List (CBlockIndex Coin Tag)
  d : CBlockIndex Coin Tag
  tail : List (CBlockIndex Coin Tag)
  wire_eq : int32 wireGroupId.toNat = G
  pos : 1 ≤ G
  group_eq : n.sparkState.coinGroups G = some info
  replay_eq : (n.sparkState.replay n.chain).coinGroups G = some info
  shape : GroupShape n.sparkState.startGroupSize n.chain G info post own carried pre
  segment_eq : own ++ carried = newer ++ d :: tail
  reference : d.hash = hash ∨ some d.hash = info.firstBlock
  source_eq : source = ⟨G, G - 1, d :: (tail ++ pre), info.firstBlock,
    ((d :: tail).flatMap (coinSetOf G (G - 1))).length⟩

lemma coverSetSource_eq_ok (hn : NodeInv env cp n)
    (h : coverSetSource (n.view false) g txHash wireGroupId hash = .ok (source, data)) :
    Nonempty (Referenced n wireGroupId hash source) ∧ data.coverSetSize = source.size := by
  unfold coverSetSource at h
  simp only [except_bind_eq_ok, orReject_eq_ok, rejectIf_eq_ok, Node.view] at h
  obtain ⟨info, hgroup, last, hlast, index, hfind, _, -, setHash, -, size, hsize, _, -, hok⟩ := h
  obtain ⟨rfl, rfl⟩ := Prod.mk.inj (Except.ok.inj hok)
  obtain ⟨rfl, -⟩ | ⟨hreplay, hG, post, own, carried, pre, hshape⟩ := hn.state.group_cases hgroup
  · cases hlast
  have hnodup := hn.state.wellPlaced.nodup
  obtain ⟨seg, f, hseg, hfirst⟩ := hshape.segment
  rw [hshape.below_last hnodup hlast, ← append_assoc, hseg, append_assoc] at hfind
  have hspec : ∃ newer d tail, seg ++ [f] = newer ++ d :: tail ∧
      findReference info.firstBlock hash (seg ++ f :: pre) = some (d :: (tail ++ pre)) ∧
      (d.hash = hash ∨ some d.hash = info.firstBlock) ∧ ∀ b ∈ newer, b.hash ≠ hash :=
    findReference_spec hfirst
  obtain ⟨newer, d, tail, hsplit, hfound, hd, -⟩ := hspec
  obtain rfl := Option.some.inj (hfind.symm.trans hfound)
  rw [← hseg] at hsplit
  have hsize' := coverSetSize_eq (int32 wireGroupId.toNat) (int32 wireGroupId.toNat - 1)
    info.firstBlock (d :: (tail ++ pre))
  rw [(hshape.walks hnodup hsplit).2, Option.map_some] at hsize'
  rw [int32_pred rfl hG] at hsize ⊢
  obtain rfl := Option.some.inj (hsize.symm.trans hsize')
  exact ⟨⟨⟨_, info, post, own, carried, pre, newer, d, tail, rfl, hG, hgroup, hreplay, hshape,
    hsplit, hd, rfl⟩⟩, rfl⟩

lemma StateInv.count_zero {s : CSparkState Coin Tag} {chain : List (CBlockIndex Coin Tag)}
    (h : StateInv s chain) : ∀ b ∈ chain, countCoinInBlock b 0 = 0 := by
  apply h.groupsInv.none_count
  rw [Option.eq_none_iff_forall_ne_some]
  intro info hinfo
  have hpos := (h.groupsInv.bounds 0 info hinfo).1
  omega

namespace Referenced

variable (r : Referenced n wireGroupId hash source)

def coins : List Coin := (r.d :: r.tail).flatMap (coinSetOf r.G (r.G - 1))

include r in
lemma load_eq (hn : NodeInv env cp n)
    {sources : List (UInt64 × CoverSetSource Coin Tag × CoverSetData)}
    (hlookup : sources.lookup wireGroupId = some (source, data)) :
    coverSetProvider sources wireGroupId = some r.coins ∧ r.coins.length = source.size := by
  have hload := (r.shape.walks hn.state.wellPlaced.nodup r.segment_eq).2
  have hsize : r.coins.length = source.size := (congrArg CoverSetSource.size r.source_eq).symm
  refine ⟨?_, hsize⟩
  unfold coverSetProvider
  rw [hlookup]
  simp only [r.source_eq, hload, if_true]
  rfl

lemma coins_pos (hn : NodeInv env cp n) : 0 < r.coins.length := by
  obtain ⟨seg, f, hlast, -⟩ := r.shape.split_segment hn.state.wellPlaced.nodup r.segment_eq
  have hseg : r.own ++ r.carried = (r.newer ++ seg) ++ [f] := by
    rw [r.segment_eq, hlast, append_assoc]
  have hf := r.shape.coinSetOf_oldest r.pos hn.state.count_zero hseg
  rw [coins, hlast, flatMap_append, length_append]
  simp only [flatMap_singleton]
  omega

lemma coins_suffix (hext : Extends env cp n n') :
    ∃ S, getCoinSet cp n'.sparkState n'.chain r.G = some S ∧ r.coins <:+ S := by
  obtain ⟨info', post', own', carried', newer, hgroup', -, hshape', hnewer⟩ :=
    hext.grown r.replay_eq r.shape
  have hpos := r.pos
  refine ⟨_, hshape'.getCoinSet_eq hext.inv'.state.wellPlaced hgroup' (by omega) cp,
    (newer ++ r.newer).flatMap (coinSetOf r.G (r.G - 1)), ?_⟩
  rw [hnewer, r.segment_eq, coins, ← flatMap_append, append_assoc]

end Referenced

end

section

variable [DecidableEq Coin] [DecidableEq Tag] {env : SparkEnv Coin Tag Proof}
  {cp : ConsensusParams} {v : View Coin Tag} {nHeight : Int} {tx : CTransaction}
  {ctx ctx' : CheckCtx Coin Tag Proof} {info info' : CSparkTxInfo Coin Tag}

def BatchProofContainer.temporary {Spend : Type} (b : BatchProofContainer Spend) :
    List (Spend × Uint256) :=
  b.tempSparkTransactions ++ b.tempHistoricalSparkTransactions

def BatchProofContainer.retained {Spend : Type} (b : BatchProofContainer Spend) :
    List (Spend × Uint256) :=
  b.sparkTransactions ++ b.historicalSparkTransactions

variable {Spend : Type} {b : BatchProofContainer Spend} {sp : Spend}

lemma BatchProofContainer.mem_temporary_collect {g} {txHash} {entry} :
    entry ∈ (b.collect g sp txHash).temporary ↔ entry ∈ b.temporary ∨ entry = (sp, txHash) := by
  unfold collect temporary add addHistorical
  split <;> simp <;> tauto

lemma BatchProofContainer.collect_fCollectProofs {g} {txHash} :
    (b.collect g sp txHash).fCollectProofs = b.fCollectProofs := by
  unfold collect
  split <;> rfl

lemma BatchProofContainer.temporary_subset_finalize (h : b.fCollectProofs = true) :
    b.temporary ⊆ b.finalize.retained := by
  intro entry hentry
  simp only [temporary, mem_append] at hentry
  simp only [retained, finalize, h, if_true, mem_append]
  tauto

/-- What the checks of transactions do to the batch: they add spends, and add each spend
of theirs while proofs are collected. -/
structure Collects (env : SparkEnv Coin Tag Proof) (cp : ConsensusParams) (v : View Coin Tag)
    (nHeight : Int) (txs : List CTransaction) (b b' : BatchProofContainer
      (SpendTransaction Coin Tag Proof)) : Prop where
  collects_eq : b'.fCollectProofs = b.fCollectProofs
  subset : b.temporary ⊆ b'.temporary
  spends : ∀ tx ∈ txs, tx.isSparkSpend = true →
    ∃ a : AcceptedSpend env cp v (blockGates cp nHeight tx) tx,
      b.fCollectProofs = true → (a.verified, env.getHash tx) ∈ b'.temporary

omit [DecidableEq Coin] in
lemma TxAccepted.collects (h : TxAccepted env cp v nHeight tx ctx info ctx' info') :
    Collects env cp v nHeight [tx] ctx.batch ctx'.batch := by
  cases h with
  | unchecked hspend => exact ⟨rfl, Subset.refl _, by simp [hspend]⟩
  | mint hspend _ _ _ hctx => subst hctx; exact ⟨rfl, Subset.refl _, by simp [hspend]⟩
  | spend _ _ a hverified _ _ _ _ hctx =>
    subst hctx
    cases hverified with
    | collected _ hctx₁ =>
      subst hctx₁
      refine ⟨collect_fCollectProofs, fun entry hentry => ?_, ?_⟩
      · exact mem_temporary_collect.mpr (.inl hentry)
      · rw [forall_mem_singleton]
        exact fun _ => ⟨a, fun _ => mem_temporary_collect.mpr (.inr rfl)⟩
    | cached hcollect _ hctx₁ =>
      subst hctx₁
      refine ⟨rfl, Subset.refl _, ?_⟩
      rw [forall_mem_singleton]
      exact fun _ => ⟨a, fun hc => by cases hcollect.symm.trans hc⟩
    | verified hcollect _ hctx₁ =>
      subst hctx₁
      refine ⟨rfl, Subset.refl _, ?_⟩
      rw [forall_mem_singleton]
      exact fun _ => ⟨a, fun hc => by cases hcollect.symm.trans hc⟩

omit [DecidableEq Coin] in
lemma TxsAccepted.collects {txIds} {vtx}
    (h : TxsAccepted env cp v nHeight txIds vtx ctx info ctx' info') :
    Collects env cp v nHeight vtx ctx.batch ctx'.batch := by
  induction h with
  | nil => exact ⟨rfl, Subset.refl _, nofun⟩
  | @cons txIds tx rest ctx info ctx₁ info₁ ctx' info' _ htx _ ih =>
    have hfirst := htx.collects
    refine ⟨ih.collects_eq.trans hfirst.collects_eq, Subset.trans hfirst.subset ih.subset, ?_⟩
    rw [forall_mem_cons]
    constructor
    · intro hspend
      obtain ⟨a, ha⟩ := hfirst.spends tx mem_cons_self hspend
      exact ⟨a, fun hc => ih.subset (ha hc)⟩
    · intro tx' htx' hspend
      obtain ⟨a, ha⟩ := ih.spends tx' htx' hspend
      exact ⟨a, fun hc => ha (hfirst.collects_eq.trans hc)⟩

end

section

variable [DecidableEq Coin] [DecidableEq Tag] {env : SparkEnv Coin Tag Proof}
  {cp : ConsensusParams} {n n₁ n' : Node Coin Tag Proof} {block : CBlock} {other : OtherChecks}

lemma AcceptedSpend.coverSet_suffix {g} {tx}
    (a : AcceptedSpend env cp (n.view false) g tx) (hext : Extends env cp n n') {id}
    (hid : id ∈ a.spend.setIdBlockHash) : ∃ size cover S, a.verified.coverSetSizes id = some size ∧
      coverSetProvider a.sources id = some cover ∧
      getCoinSet cp n'.sparkState n'.chain (int32 id.toNat) = some S ∧
      cover = S.drop (S.length - size) ∧ 1 ≤ size ∧ size ≤ S.length := by
  have hsome : (a.sources.lookup id).isSome := by
    have hkey : id ∈ a.sources.map fst := by
      rw [coverSetSources_keys a.sources_eq, Std.ExtTreeMap.map_fst_toList_eq_keys]
      exact Std.ExtTreeMap.mem_keys.mpr hid
    obtain ⟨entry, hentry, hfst⟩ := mem_map.mp hkey
    rw [lookup_isSome_iff]
    exact ⟨entry, hentry, by simp [hfst]⟩
  obtain ⟨⟨source, data⟩, hlookup⟩ := Option.isSome_iff_exists.mp hsome
  obtain ⟨hash, -, hsource⟩ := coverSetSources_lookup a.sources_eq hlookup
  obtain ⟨⟨r⟩, hdata⟩ := coverSetSource_eq_ok hext.inv hsource
  obtain ⟨hload, hlength⟩ := r.load_eq hext.inv hlookup
  obtain ⟨S, hS, hsuffix⟩ := r.coins_suffix hext
  have hsize : source.size = r.coins.length := hlength.symm
  refine ⟨source.size, r.coins, S, ?_, hload, r.wire_eq ▸ hS, ?_, ?_, ?_⟩
  · rw [a.coverSetSizes_eq hlookup, hdata]
  · rw [hsize]
    exact suffix_iff_eq_drop.mp hsuffix
  · rw [hsize]
    exact r.coins_pos hext.inv
  · rw [hsize]
    exact hsuffix.length_le

/-- Every spend of a connected block is in the batch while proofs are collected, and in
every later node that still has the block, the cover set with which it was validated is
for each of its references the suffix, of the recorded size, of the set that the batch
gets from `GetCoinSet`. -/
theorem batch_coverSets {maxCoinInGroup startGroupSize : Nat}
    {ok : Node Coin Tag Proof → Action Coin Tag → Prop}
    (h : Reachable env cp maxCoinInGroup startGroupSize ok n)
    (hstep : n.step env cp (.connectTip block other) = some n₁) (hconnected : n₁.chain ≠ n.chain)
    (hlater : Reach (Node.step env cp) (StaysAbove n₁) n₁ n') {tx : CTransaction}
    (htx : tx ∈ block.vtx) (hspend : tx.isSparkSpend = true) :
    ∃ a : AcceptedSpend env cp (n.view false) (blockGates cp (nextBlockHeight n.chain) tx) tx,
      (other.shouldBatchSparkProofs = true → (a.verified, env.getHash tx) ∈ n₁.batch.retained) ∧
      (∀ id ∈ a.verified.coverSetIds, id ∈ a.spend.setIdBlockHash) ∧
      ∀ id ∈ a.spend.setIdBlockHash, ∃ size cover S, a.verified.coverSetSizes id = some size ∧
        coverSetProvider a.sources id = some cover ∧
        getCoinSet cp n'.sparkState n'.chain (int32 id.toNat) = some S ∧
        cover = S.drop (S.length - size) ∧ 1 ≤ size ∧ size ≤ S.length := by
  have hn := nodeInv_of_reachable h
  have hn₁ := hn.step hstep
  obtain ⟨index, hentry, htip⟩ := hn.connectTip_cases hstep
  have hext₁ := (Extends.refl hn).step (a := .connectTip block other) trivial hstep
  have hext := hext₁.trans (Extends.of_reach hn₁ hlater)
  cases htip with
  | refused => exact absurd rfl hconnected
  | failed => exact absurd rfl hconnected
  | genesis hchain =>
    obtain ⟨rfl, -⟩ := Node.indexOf_nil hchain hentry
    have hspark := cp.genesis_noSpark tx htx
    simp [CTransaction.isSparkTransaction, hspend] at hspark
  | connected hnext _ n₁ b c =>
    have hcollects := c.accepted.collects
    obtain ⟨a, ha⟩ := hcollects.spends tx (hnext.block_eq ▸ htx) hspend
    rw [hnext.next]
    refine ⟨a, fun hbatch => ?_, fun id hid => ?_, fun id hid => a.coverSet_suffix hext hid⟩
    · have hcollect : c.ctx.batch.fCollectProofs = true := hcollects.collects_eq.trans hbatch
      change _ ∈ n₁.batch.retained
      rw [c.batch_eq]
      exact temporary_subset_finalize hcollect (ha hbatch)
    · obtain ⟨p, hp, hfst⟩ := lookup_isSome_iff.mp ((completeSpend_eq_ok a.verified_eq).2.2 id hid)
      have hkey : id ∈ a.sources.map fst := mem_map.mpr ⟨p, hp, (eq_of_beq hfst).symm⟩
      rw [coverSetSources_keys a.sources_eq, Std.ExtTreeMap.map_fst_toList_eq_keys] at hkey
      exact Std.ExtTreeMap.mem_keys.mp hkey

end

theorem batch_coverSets_oneSpend : ∃ n n₁ n' : Node Toy.Coin UInt8 Toy.Coin,
      Reachable Toy.env (Toy.params 1) 3 1 (fun _ _ => True) n ∧
      n.step Toy.env (Toy.params 1) (.connectTip (Toy.block 2 [Toy.spendSeven 2 1 1 20])
        { shouldBatchSparkProofs := true }) = some n₁ ∧
      n₁.step Toy.env (Toy.params 1) (Toy.connect 3 [Toy.mintTx 3 [(8, 50)]]) = some n' ∧
      ∃ a : AcceptedSpend Toy.env (Toy.params 1) (n.view false) (blockGates (Toy.params 1)
        (nextBlockHeight n.chain) (Toy.spendSeven 2 1 1 20)) (Toy.spendSeven 2 1 1 20),
        (a.verified, Toy.env.getHash (Toy.spendSeven 2 1 1 20)) ∈ n₁.batch.retained ∧
        ∀ id ∈ a.spend.setIdBlockHash, ∃ size S, a.verified.coverSetSizes id = some size ∧
          getCoinSet (Toy.params 1) n'.sparkState n'.chain (int32 id.toNat) = some S ∧
          coverSetProvider a.sources id = some (S.drop (S.length - size)) := by
  have hrun : ([Toy.connect 0 [], Toy.connect 1 [Toy.mintTx 1 [(7, 50)]]].foldlM
      (Node.step Toy.env (Toy.params 1)) (Node.initial 3 1)).any (fun n =>
        n.chain.length == 2 &&
        (n.step Toy.env (Toy.params 1) (.connectTip (Toy.block 2 [Toy.spendSeven 2 1 1 20])
          { shouldBatchSparkProofs := true })).any fun n₁ => n₁.chain.length == 3 &&
        (n₁.step Toy.env (Toy.params 1) (Toy.connect 3 [Toy.mintTx 3 [(8, 50)]])).isSome) =
          true := by
    decide +kernel
  obtain ⟨n, hn, htest⟩ := (Option.any_eq_true ..).mp hrun
  simp only [Bool.and_eq_true, beq_iff_eq, Option.any_eq_true, Option.isSome_iff_exists] at htest
  obtain ⟨hlength, n₁, hstep, hlength₁, n', hstep'⟩ := htest
  have hreach : Reachable Toy.env (Toy.params 1) 3 1 (fun _ _ => True) n :=
    Reach.of_foldlM .init (fun _ _ _ => trivial) hn
  have hlater : Reach (Node.step Toy.env (Toy.params 1)) (StaysAbove n₁) n₁ n' :=
    .step (Toy.connect 3 [Toy.mintTx 3 [(8, 50)]]) .init trivial hstep'
  obtain ⟨a, hbatch, -, hsets⟩ := batch_coverSets hreach hstep
    (fun heq => by rw [heq, hlength] at hlength₁; cases hlength₁) hlater mem_cons_self rfl
  refine ⟨n, n₁, n', hreach, hstep, hstep', a, hbatch rfl, fun id hid => ?_⟩
  obtain ⟨size, cover, S, hsize, hcover, hS, rfl, -⟩ := hsets id hid
  exact ⟨size, S, hsize, hS, hcover⟩

end Firo.Spark
