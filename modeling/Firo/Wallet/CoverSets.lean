import Firo.Spark.Growth

/-! `CreateSparkSpendTransaction` takes the cover set of a coin from the coin's group, or from the
next group if that one has taken the coin over. Every confirmed coin is then in its set. -/
namespace Firo.Wallet

open Firo.Lib Firo.Spark List

variable {Coin Tag Proof : Type}

def blockHeight (chain : List (CBlockIndex Coin Tag)) (block : BlockPtr) : Option Int :=
  block.bind fun hash => (below CBlockIndex.hash hash chain).head?.map CBlockIndex.nHeight

/-- The group whose coins are the cover set of a coin; `none` where the source follows a null
pointer. -/
def coverSetGroup (s : CSparkState Coin Tag) (chain : List (CBlockIndex Coin Tag))
    (nId nHeight : Int) : Option Int :=
  if nId < s.latestCoinId then
    match s.coinGroups (nId + 1) with
    | some nextCoinGroupInfo => (blockHeight chain nextCoinGroupInfo.firstBlock).map fun height =>
        if height ≤ nHeight then nId + 1 else nId
    | none => some nId
  else some nId

/-- The index of a coin in a cover set; without it the wallet fails with
`No such coin in set`. -/
def getIndex [DecidableEq Coin] (coin : Coin) (anonymitySet : List Coin) : Option Nat :=
  anonymitySet.findIdx? (· = coin)

def spendHeight (chain : List (CBlockIndex Coin Tag)) : Int :=
  nextBlockHeight chain - 1 - (ZC_MINT_CONFIRMATIONS - 1)

def chainMints (chain : List (CBlockIndex Coin Tag)) : List Coin :=
  chain.flatMap fun block => block.sparkMintedCoins.toList.flatMap Prod.snd

/-- Every block with coins of a group has a set hash of 32 bytes for it. -/
def HashedMints (chain : List (CBlockIndex Coin Tag)) : Prop :=
  ∀ b ∈ chain, ∀ id, countCoinInBlock b id ≠ 0 →
    ∃ hash, b.sparkSetHash[id]? = some hash ∧ hash.length = 32

section

variable [DecidableEq Coin] [DecidableEq Tag] {env : SparkEnv Coin Tag Proof}
  {cp : ConsensusParams} {n : Node Coin Tag Proof} {maxCoinInGroup startGroupSize : Nat}
  {ok : Node Coin Tag Proof → Action Coin Tag → Prop}

lemma hashedMints_of_connection {other} {index b}
    {n₁} (hhash : ∀ input, (env.hash256 input).length = 32)
    (hn : NodeInv env cp n) {block} (hnext : NextBlock env cp n block index)
    (c : Connection env cp other n index n₁ b) {id : Int} (hcount : countCoinInBlock b id ≠ 0) :
    ∃ hash, b.sparkSetHash[id]? = some hash ∧ hash.length = 32 := by
  have hr := c.result hn.namesInv hnext.recordable
  have hcount₁ : countCoinInBlock c.b₁ id ≠ 0 := by
    unfold countCoinInBlock at hcount ⊢
    rwa [hr.minted_eq] at hcount
  obtain ⟨-, -, -, ⟨-, -, hnone⟩ | ⟨p, -, hs, hb⟩⟩ :=
    hn.state.connect_cases hnext.height_lt c.state_eq
  · exact absurd (hnone.countCoinInBlock id) hcount₁
  · have hid : p.latestCoinId = id := by
      by_contra hne
      rw [hb.countCoinInBlock, if_neg hne] at hcount₁
      exact hcount₁ rfl
    obtain ⟨hempty, -⟩ | ⟨-, input, -, hset⟩ := c.spark.setHash_of
    · exact absurd hempty hb.ne_nil
    · have hlatest : n₁.sparkState.latestCoinId = id := by
        rw [hs, CSparkState.addMints_latestCoinId, hid]
      refine ⟨env.hash256 input, ?_, hhash input⟩
      rw [hr.setHash_eq, hset, hlatest]
      simp [CBlockIndex.withSetHash]

lemma hashedMints_of_reachable (hhash : ∀ input, (env.hash256 input).length = 32)
    (h : Reachable env cp maxCoinInGroup startGroupSize ok n) : HashedMints n.chain := by
  apply h.spark_induction (I := fun n => HashedMints n.chain)
  · exact nofun
  · intro n n' block other index hn hI _ _ hentry htip
    cases htip with
    | refused => exact hI
    | failed => exact hI
    | genesis hchain =>
      obtain ⟨-, rfl⟩ := Node.indexOf_nil hchain hentry
      intro b hb id hcount
      rw [mem_singleton.mp hb] at hcount
      simp [countCoinInBlock] at hcount
    | connected hnext _ n₁ b c =>
      exact forall_mem_cons.mpr
        ⟨fun id hcount => hashedMints_of_connection hhash hn hnext c hcount, hI⟩
  · intro n n' batching _ hI hstep
    obtain ⟨b, p, rest, s, batch, hchain, -, rfl⟩ := disconnectTip_eq_some hstep
    exact fun c hc => hI c (hchain ▸ mem_cons_of_mem b hc)
  · intro n n' heq hI
    rwa [heq.chain]

end

variable {b : CBlockIndex Coin Tag}

lemma coinSetOf_of_hasMints {id G previousId : Int} {coins} (hb : b.HasMints id coins)
    (hid : id ≠ 0) (hG : id = G ∨ id = previousId) : coinSetOf G previousId b = coins := by
  have hcoinSetId : coinSetId G previousId b = id := by
    have hcount := hb.count_ne_zero
    rw [coinSetId]
    by_cases heq : id = G
    · rw [← heq, if_pos hcount]
    · have hprevious := hG.resolve_left heq
      rw [hb.countCoinInBlock G, if_neg heq, ← hprevious, if_neg (by simp), if_pos hcount]
  rw [coinSetOf, hcoinSetId, if_pos hid, hb.getElem?, if_pos rfl, Option.getD_some]

lemma coinSetOf_sublist (id previousId : Int) (b : CBlockIndex Coin Tag) :
    (coinSetOf id previousId b).Sublist (b.sparkMintedCoins.toList.flatMap Prod.snd) := by
  rw [coinSetOf]
  split
  · cases hget : b.sparkMintedCoins[coinSetId id previousId b]? with
    | none => exact nil_sublist _
    | some coins =>
      have hmem := Std.ExtTreeMap.mem_toList_iff_getElem?_eq_some.mpr hget
      exact sublist_flatten_of_mem (mem_map_of_mem (f := Prod.snd) hmem)
  · exact nil_sublist _

variable {s : CSparkState Coin Tag} {G : Int} {start : Nat}
  {chain post own carried pre : List (CBlockIndex Coin Tag)} {group : SparkCoinGroupInfo}

/-- What a spender gets for a group whose segment has the block of a coin. -/
structure Spendable [DecidableEq Coin] (cp : ConsensusParams) (s : CSparkState Coin Tag)
    (chain : List (CBlockIndex Coin Tag)) (c : Coin) (G : Int) (out : CoinSetForSpend Coin) :
    Prop where
  coinSet : getCoinSetForSpend cp s chain (spendHeight chain) G = some out
  once : out.coins.count c = 1
  found : (getIndex c out.coins).isSome
  reference : ∃ group hash, s.coinGroups G = some group ∧ group.lastBlock = some hash ∧
    out.blockHash = some hash
  bound : includeFirstBlockSetHash cp (nextBlockHeight chain) = true → out.setHash.length = 32

lemma spendable_of_mem [DecidableEq Coin] (h : GroupShape start chain G group post own carried pre)
    (hwp : WellPlaced chain) (hs : s.coinGroups G = some group) (hG : G ≠ 0) (cp)
    (hhashed : HashedMints chain) (hdistinct : (chainMints chain).Nodup) {c : Coin}
    (hb : b ∈ own ++ carried) (hc : c ∈ coinSetOf G (G - 1) b) :
    ∃ out, Spendable cp s chain c G out := by
  obtain ⟨e, own', setHash, hown, he, hlast, hset, hout⟩ := h.coinSetAtTip hwp hs hG cp
  have hmem : c ∈ (own ++ carried).flatMap (coinSetOf G (G - 1)) := mem_flatMap.mpr ⟨b, hb, hc⟩
  have hsublist : ((own ++ carried).flatMap (coinSetOf G (G - 1))).Sublist (chainMints chain) := by
    have hsegment : (own ++ carried).Sublist chain := by
      rw [h.chain_eq, ← append_assoc own]
      exact (sublist_append_left _ _).trans (sublist_append_right _ _)
    exact (Sublist.flatMap_right _ fun b _ => coinSetOf_sublist G (G - 1) b).trans
      (hsegment.flatMap _)
  refine ⟨_, hout, count_eq_one_of_mem (hdistinct.sublist hsublist) hmem, ?_,
    ⟨group, e.hash, hs, hlast, rfl⟩, fun hincl => ?_⟩
  · rw [getIndex, findIdx?_isSome, any_eq_true]
    exact ⟨c, hmem, by simp⟩
  · -- the newest block of the group has a set hash itself
    obtain ⟨hash, hhash, hlength⟩ := hhashed e (by rw [h.chain_eq, hown]; simp) G he
    rw [hincl, findSetHash, if_pos (Or.inr rfl), hhash] at hset
    rwa [← Option.some.inj hset]

lemma blockHeight_first (h : GroupShape start chain G group post own carried pre)
    (hwp : WellPlaced chain) :
    ∃ f : CBlockIndex Coin Tag, blockHeight chain group.firstBlock = some f.nHeight ∧
      ∀ b ∈ pre, b.nHeight < f.nHeight := by
  obtain ⟨seg, f, hseg, hfirst⟩ := h.segment
  have hchain : chain = (post ++ seg) ++ f :: pre := by
    rw [h.chain_eq, ← append_assoc own, hseg]
    simp
  have hnodup := hwp.nodup
  rw [hchain] at hnodup hwp
  refine ⟨f, ?_, hwp.height_lt⟩
  rw [blockHeight, hfirst, Option.bind_some, hchain, below_append_cons (key_ne_of_nodup hnodup)]
  rfl

lemma mem_carried (h : GroupShape start chain (G + 1) group post own carried pre) (hb : b ∈ chain)
    (hcount : countCoinInBlock b G ≠ 0) (hpre : b ∉ pre) : b ∈ own ++ carried := by
  rw [h.chain_eq] at hb
  simp only [mem_append] at hb ⊢
  rcases hb with hb | hb | hb | hb
  · exact absurd (h.post_count b hb G (by omega)) hcount
  · exact .inl hb
  · exact .inr hb
  · exact absurd hb hpre

section

variable [DecidableEq Coin] [DecidableEq Tag] {env : SparkEnv Coin Tag Proof}
  {cp : ConsensusParams} {n : Node Coin Tag Proof} {maxCoinInGroup startGroupSize : Nat}
  {ok : Node Coin Tag Proof → Action Coin Tag → Prop}

/-- Every confirmed coin is spendable. In every reachable node without repeated mints the group
that the wallet chooses for a minted coin gives it a cover set with the coin exactly once, the
newest block of the group as its reference and, from the start of the second version on, a set
hash of 32 bytes. -/
theorem confirmed_coin_spendable (hhash : ∀ input, (env.hash256 input).length = 32)
    (h : Reachable env cp maxCoinInGroup startGroupSize ok n)
    (hdistinct : (chainMints n.chain).Nodup) {c : Coin} {info : CMintedCoinInfo}
    (hc : n.sparkState.mintedCoins c = some info) :
    ∃ G out, coverSetGroup n.sparkState n.chain info.coinGroupId info.nHeight = some G ∧
      getCoinSetForSpend cp n.sparkState n.chain (spendHeight n.chain) G = some out ∧
      out.coins.count c = 1 ∧ (getIndex c out.coins).isSome ∧
      (∃ group hash, n.sparkState.coinGroups G = some group ∧ group.lastBlock = some hash ∧
        out.blockHash = some hash) ∧
      (cp.nSparkChaumV2StartBlock ≤ nextBlockHeight n.chain →
        nextBlockHeight n.chain ≠ INT_MAX → out.setHash.length = 32) := by
  obtain ⟨G, out, hG, hout⟩ : ∃ G out, coverSetGroup n.sparkState n.chain info.coinGroupId
      info.nHeight = some G ∧ Spendable cp n.sparkState n.chain c G out := by
    have hs := (nodeInv_of_reachable h).state
    have hwp := hs.wellPlaced
    have hhashed := hashedMints_of_reachable hhash h
    rw [hs.agrees.minted_eq] at hc
    obtain ⟨b, hb, coins, hmints, hcoin, hheight⟩ := build_mintedCoins_of_some hwp hc
    obtain ⟨group, hgroup⟩ :
        ∃ group, (n.sparkState.replay n.chain).coinGroups info.coinGroupId = some group := by
      rw [← Option.ne_none_iff_exists']
      exact fun hnone => hmints.count_ne_zero (hs.groupsInv.none_count _ hnone b hb)
    have hpos := (hs.groupsInv.bounds _ group hgroup).1
    obtain ⟨post, own, carried, pre, hshape⟩ := hs.groupsInv.shape _ group hgroup
    obtain ⟨out, hown⟩ : ∃ out, Spendable cp n.sparkState n.chain c info.coinGroupId out :=
      spendable_of_mem hshape hwp (hs.agrees.group_of_some hgroup) (by omega) cp hhashed hdistinct
        (mem_append_left _ (hshape.mem_own hb hmints.count_ne_zero))
        (by rwa [coinSetOf_of_hasMints hmints (by omega) (.inl rfl)])
    rw [coverSetGroup]
    split
    · split
      · rename_i next hnext
        have hlive : (n.sparkState.replay n.chain).coinGroups (info.coinGroupId + 1) =
            some next := by
          rcases hs.agrees.groups_eq (info.coinGroupId + 1) with heq | ⟨hone, -⟩
          · rwa [← heq]
          · omega
        obtain ⟨post', own', carried', pre', hshape'⟩ := hs.groupsInv.shape _ next hlive
        obtain ⟨f, hf, hbelow⟩ := blockHeight_first hshape' hwp
        rw [hf, Option.map_some]
        split
        · rename_i hle
          obtain ⟨out, hout⟩ := spendable_of_mem hshape' hwp hnext (by omega) cp hhashed hdistinct
            (mem_carried hshape' hb hmints.count_ne_zero fun hpre => by
              have := hbelow b hpre
              omega)
            (by rwa [coinSetOf_of_hasMints hmints (by omega) (.inr (by omega))])
          exact ⟨_, out, rfl, hout⟩
        · exact ⟨_, out, rfl, hown⟩
      · exact ⟨_, out, rfl, hown⟩
    · exact ⟨_, out, rfl, hown⟩
  refine ⟨G, out, hG, hout.coinSet, hout.once, hout.found, hout.reference, ?_⟩
  intro hstart hsentinel
  apply hout.bound
  rw [includeFirstBlockSetHash_eq h hsentinel, decide_eq_true_eq]
  exact hstart

end

/-- Three blocks of one coin each. The first group holds two coins, and the second one takes
the newer of them over. -/
theorem confirmed_coin_spendable_threeMints :
    ∃ (n : Node Toy.Coin UInt8 Toy.Coin) (info : CMintedCoinInfo) (out : CoinSetForSpend Toy.Coin),
      Reachable Toy.env (Toy.params 1) 2 1 (fun _ _ => True) n ∧
      n.sparkState.mintedCoins ⟨COIN_TYPE_MINT, 8, 50⟩ = some info ∧ info.coinGroupId = 1 ∧
      coverSetGroup n.sparkState n.chain info.coinGroupId info.nHeight = some 2 ∧
      getCoinSetForSpend (Toy.params 1) n.sparkState n.chain (spendHeight n.chain) 2 = some out ∧
      out.coins.count ⟨COIN_TYPE_MINT, 8, 50⟩ = 1 := by
  have hrun : ([Toy.connect 0 [], Toy.connect 1 [Toy.mintTx 1 [(7, 50)]],
      Toy.connect 2 [Toy.mintTx 2 [(8, 50)]], Toy.connect 3 [Toy.mintTx 3 [(9, 50)]]].foldlM
      (Node.step Toy.env (Toy.params 1)) (Node.initial 2 1)).any (fun n =>
        (n.sparkState.mintedCoins ⟨COIN_TYPE_MINT, 8, 50⟩).any (fun info =>
          decide (info.coinGroupId = 1) &&
          decide (coverSetGroup n.sparkState n.chain info.coinGroupId info.nHeight = some 2)) &&
        decide (chainMints n.chain).Nodup) = true := by
    decide +kernel
  obtain ⟨n, hn, htest⟩ := (Option.any_eq_true ..).mp hrun
  simp only [Bool.and_eq_true, Option.any_eq_true, decide_eq_true_eq] at htest
  obtain ⟨⟨info, hinfo, hid, hgroup⟩, hdistinct⟩ := htest
  have hreach : Reachable Toy.env (Toy.params 1) 2 1 (fun _ _ => True) n :=
    Reach.of_foldlM .init (fun _ _ _ => trivial) hn
  have hhash : ∀ input, (Toy.env.hash256 input).length = 32 := by
    intro input
    change ((List.range 32).map _).length = 32
    rw [length_map, length_range]
  obtain ⟨G, out, hG, hout, honce, -⟩ := confirmed_coin_spendable hhash hreach hdistinct hinfo
  obtain rfl : 2 = G := Option.some.inj (hgroup.symm.trans hG)
  exact ⟨n, info, out, hreach, hinfo, hid, hgroup, hout, honce⟩

end Firo.Wallet
