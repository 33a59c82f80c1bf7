import Firo.Spark.State

/-! Each block puts its mints into one group, and a group is a segment of the active chain: its own
blocks, then the blocks of the previous group whose coins it reuses. `replay` rebuilds the state
from the block index; its groups have this shape for every chain of well placed blocks. -/
namespace Firo.Spark

open Firo.Lib List CBlockIndex

variable {Coin Tag : Type}

namespace CBlockIndex

/-- All the mints of the block went to the group `id`. -/
structure HasMints (b : CBlockIndex Coin Tag) (id : Int) (coins : List Coin) : Prop where
  ne_nil : coins ≠ []
  eq_insert : b.sparkMintedCoins = (∅ : Std.ExtTreeMap Int (List Coin)).insert id coins

def NoMints (b : CBlockIndex Coin Tag) : Prop :=
  b.sparkMintedCoins = ∅

variable {b : CBlockIndex Coin Tag} {id : Int} {coins : List Coin}

lemma HasMints.getElem? (h : b.HasMints id coins) (G : Int) :
    b.sparkMintedCoins[G]? = if id = G then some coins else none := by
  rw [h.eq_insert, Std.ExtTreeMap.getElem?_insert]
  simp

lemma HasMints.toList (h : b.HasMints id coins) : b.sparkMintedCoins.toList = [(id, coins)] := by
  have hlen : b.sparkMintedCoins.toList.length = 1 := by
    rw [Std.ExtTreeMap.length_toList, h.eq_insert, Std.ExtTreeMap.size_insert]
    simp
  have hmem : (id, coins) ∈ b.sparkMintedCoins.toList := by
    rw [Std.ExtTreeMap.mem_toList_iff_getElem?_eq_some, h.getElem?]
    simp
  obtain ⟨x, hx⟩ := length_eq_one_iff.mp hlen
  rw [hx, mem_singleton] at hmem
  rw [hx, hmem]

lemma HasMints.countCoinInBlock (h : b.HasMints id coins) (G : Int) :
    countCoinInBlock b G = if id = G then coins.length else 0 := by
  unfold Spark.countCoinInBlock
  rw [h.getElem?]
  by_cases hG : id = G <;> simp [hG]

lemma HasMints.count_ne_zero (h : b.HasMints id coins) : Spark.countCoinInBlock b id ≠ 0 := by
  rw [h.countCoinInBlock, if_pos rfl]
  exact fun h0 => h.ne_nil (eq_nil_of_length_eq_zero h0)

lemma NoMints.eq_empty (h : b.NoMints) : b.sparkMintedCoins = ∅ := h

lemma HasMints.unique {id id' : Int} {coins coins' : List Coin} (h : b.HasMints id coins)
    (h' : b.HasMints id' coins') : id = id' ∧ coins = coins' := by
  have htoList := h.toList
  rw [h'.toList] at htoList
  simpa [eq_comm] using htoList

lemma NoMints.countCoinInBlock (h : b.NoMints) (G : Int) : Spark.countCoinInBlock b G = 0 := by
  unfold Spark.countCoinInBlock
  rw [h.eq_empty]
  simp

lemma NoMints.toList (h : b.NoMints) : b.sparkMintedCoins.toList = [] := by
  rw [h.eq_empty]
  simp

lemma HasMints.not_noMints (h : b.HasMints id coins) : ¬ b.NoMints := by
  intro hb
  have htoList := h.toList
  rw [hb.toList] at htoList
  cases htoList

end CBlockIndex

def latestId : List (CBlockIndex Coin Tag) → Int
  | [] => 0
  | b :: rest => (b.sparkMintedCoins.toList.getLast?.map (·.1)).getD (latestId rest)

/-- The chains that connecting blocks builds: distinct hashes, increasing heights,
and each block's mints in the newest group of the chain below or in the next one. -/
def WellPlaced : List (CBlockIndex Coin Tag) → Prop
  | [] => True
  | b :: rest => WellPlaced rest ∧ (∀ c ∈ rest, c.hash ≠ b.hash) ∧
      (∀ c ∈ rest, c.nHeight < b.nHeight) ∧
      (b.NoMints ∨ ∃ id coins, b.HasMints id coins ∧
        (id = max 1 (latestId rest) ∨ id = max 1 (latestId rest) + 1))

lemma WellPlaced.nodup {chain : List (CBlockIndex Coin Tag)} (h : WellPlaced chain) :
    (chain.map hash).Nodup := by
  induction chain with
  | nil => exact nodup_nil
  | cons b rest ih =>
    obtain ⟨hrest, hhash, -⟩ := h
    rw [map_cons, nodup_cons]
    refine ⟨?_, ih hrest⟩
    rw [mem_map]
    rintro ⟨c, hc, he⟩
    exact hhash c hc he

lemma WellPlaced.append_right {ext chain : List (CBlockIndex Coin Tag)}
    (h : WellPlaced (ext ++ chain)) : WellPlaced chain := by
  induction ext with
  | nil => exact h
  | cons b ext ih => exact ih h.1

def sumCount (id : Int) (l : List (CBlockIndex Coin Tag)) : Nat :=
  (l.map (countCoinInBlock · id)).sum

@[simp] lemma sumCount_nil (id : Int) : sumCount id ([] : List (CBlockIndex Coin Tag)) = 0 := rfl

@[simp] lemma sumCount_cons (id : Int) (b : CBlockIndex Coin Tag)
    (l : List (CBlockIndex Coin Tag)) :
    sumCount id (b :: l) = countCoinInBlock b id + sumCount id l := by
  simp [sumCount]

@[simp] lemma sumCount_append (id : Int) (l l' : List (CBlockIndex Coin Tag)) :
    sumCount id (l ++ l') = sumCount id l + sumCount id l' := by
  simp [sumCount]

lemma sumCount_eq_zero {id : Int} {l : List (CBlockIndex Coin Tag)}
    (h : ∀ b ∈ l, countCoinInBlock b id = 0) : sumCount id l = 0 := by
  rw [sumCount, sum_eq_zero_iff]
  intro n hn
  obtain ⟨b, hb, rfl⟩ := mem_map.mp hn
  exact h b hb

namespace CSparkState

lemma countBack_of_zero {id : Int} {required coins : Nat} {first : BlockPtr}
    {l : List (CBlockIndex Coin Tag)} (h : ∀ b ∈ l, countCoinInBlock b id = 0) :
    countBack id required l coins first = (coins, first) := by
  induction l with
  | nil => rfl
  | cons b l ih =>
    have hb : countCoinInBlock b id = 0 := h b mem_cons_self
    have ih := ih fun c hc => h c (mem_cons_of_mem _ hc)
    simp [countBack, hb, ih]

/-- `CountLastNCoins` takes a newest part `p` of the group's blocks: it ends at a
block of the group, before that block the count was below `required`, and it is
the whole group when the count stays below `required`. -/
lemma countBack_spec {id : Int} (required : Nat) (own : List (CBlockIndex Coin Tag))
    {rest : List (CBlockIndex Coin Tag)} (hrest : ∀ b ∈ rest, countCoinInBlock b id = 0)
    (coins : Nat) (first : BlockPtr) : ∃ p q, own = p ++ q ∧
      (countBack id required (own ++ rest) coins first).1 = coins + sumCount id p ∧
      (p = [] ∧ (countBack id required (own ++ rest) coins first).2 = first ∨
        ∃ p' b, p = p' ++ [b] ∧ countCoinInBlock b id ≠ 0 ∧
          (countBack id required (own ++ rest) coins first).2 = some b.hash ∧
          coins + sumCount id p' < required) ∧
      (required ≤ coins + sumCount id p ∨ ∀ b ∈ q, countCoinInBlock b id = 0) := by
  induction own generalizing coins first with
  | nil =>
    refine ⟨[], [], rfl, ?_, Or.inl ⟨rfl, ?_⟩, Or.inr (by simp)⟩ <;>
      simp [countBack_of_zero hrest]
  | cons b own ih =>
    by_cases hlt : coins < required
    · by_cases hb : countCoinInBlock b id = 0
      · have heq : countBack id required (b :: own ++ rest) coins first =
            countBack id required (own ++ rest) coins first := by
          simp [countBack, hlt, hb]
        obtain ⟨p, q, rfl, hsum, hfirst, hstop⟩ := ih coins first
        rw [heq]
        rcases hfirst with ⟨rfl, hf⟩ | ⟨p', c, rfl, hc, hf, hp'⟩
        · refine ⟨[], b :: q, rfl, hsum, Or.inl ⟨rfl, hf⟩, Or.inr ?_⟩
          have hq : ∀ c ∈ q, countCoinInBlock c id = 0 := by
            rcases hstop with h | h
            · rw [sumCount_nil] at h
              omega
            · exact h
          exact forall_mem_cons.mpr ⟨hb, hq⟩
        · refine ⟨b :: (p' ++ [c]), q, rfl, ?_, Or.inr ⟨b :: p', c, rfl, hc, hf, ?_⟩, ?_⟩
          · simpa [hb] using hsum
          · simpa [hb] using hp'
          · simpa [hb] using hstop
      · have heq : countBack id required (b :: own ++ rest) coins first =
            countBack id required (own ++ rest) (coins + countCoinInBlock b id)
              (some b.hash) := by
          simp [countBack, hlt, hb]
        obtain ⟨p, q, rfl, hsum, hfirst, hstop⟩ := ih (coins + countCoinInBlock b id) (some b.hash)
        rw [heq]
        refine ⟨b :: p, q, rfl, by simpa [add_assoc] using hsum, Or.inr ?_, ?_⟩
        · rcases hfirst with ⟨rfl, hf⟩ | ⟨p', c, rfl, hc, hf, hp'⟩
          · exact ⟨[], b, rfl, hb, hf, by simpa using hlt⟩
          · exact ⟨b :: p', c, rfl, hc, hf, by simpa [add_assoc] using hp'⟩
        · simpa [add_assoc] using hstop
    · refine ⟨[], b :: own, rfl, ?_, Or.inl ⟨rfl, ?_⟩, Or.inl (by simpa using hlt)⟩ <;>
        simp [countBack, hlt]

end CSparkState

/-- The group `G` is the segment `own ++ carried` of the chain: the blocks with its
coins, and the newest blocks of the previous group, which it reuses. -/
structure GroupShape (start : Nat) (chain : List (CBlockIndex Coin Tag)) (G : Int)
    (info : SparkCoinGroupInfo) (post own carried pre : List (CBlockIndex Coin Tag)) :
    Prop where
  chain_eq : chain = post ++ (own ++ (carried ++ pre))
  post_count : ∀ b ∈ post, ∀ id, id ≤ G → countCoinInBlock b id = 0
  own_count : ∀ b ∈ own, ∀ id, id ≠ G → countCoinInBlock b id = 0
  carried_count : ∀ b ∈ carried, ∀ id, id ≠ G - 1 → countCoinInBlock b id = 0
  pre_count : ∀ b ∈ pre, ∀ id, G ≤ id → countCoinInBlock b id = 0
  newest : ∃ b own', own = b :: own' ∧ countCoinInBlock b G ≠ 0 ∧ info.lastBlock = some b.hash
  oldest : ∃ own' b, own = own' ++ [b] ∧ countCoinInBlock b G ≠ 0 ∧
    (carried = [] → info.firstBlock = some b.hash)
  carried_oldest : ∀ l b, carried = l ++ [b] → countCoinInBlock b (G - 1) ≠ 0 ∧
    info.firstBlock = some b.hash ∧ sumCount (G - 1) l < start
  carried_full : start ≤ sumCount (G - 1) carried ∨ ∀ b ∈ pre, countCoinInBlock b (G - 1) = 0
  nCoins_eq : info.nCoins = sumCount G own + sumCount (G - 1) carried

namespace GroupShape

variable {start : Nat} {chain post own carried pre : List (CBlockIndex Coin Tag)} {G : Int}
  {info : SparkCoinGroupInfo}

lemma segment (h : GroupShape start chain G info post own carried pre) :
    ∃ seg b, own ++ carried = seg ++ [b] ∧ info.firstBlock = some b.hash := by
  rcases eq_nil_or_concat carried with hc | ⟨l, b, hc⟩
  · obtain ⟨own', b, hown, -, hfirst⟩ := h.oldest
    exact ⟨own', b, by rw [hc, hown, append_nil], hfirst hc⟩
  · rw [concat_eq_append] at hc
    obtain ⟨-, hfirst, -⟩ := h.carried_oldest l b hc
    exact ⟨own ++ l, b, by rw [hc, append_assoc], hfirst⟩

lemma nCoins_ne_zero (h : GroupShape start chain G info post own carried pre) :
    info.nCoins ≠ 0 := by
  obtain ⟨b, own', hown, hb, -⟩ := h.newest
  rw [h.nCoins_eq, hown, sumCount_cons]
  omega

variable {b : CBlockIndex Coin Tag}

lemma cons_post (h : GroupShape start chain G info post own carried pre)
    (hb : ∀ id, id ≤ G → countCoinInBlock b id = 0) :
    GroupShape start (b :: chain) G info (b :: post) own carried pre :=
  { h with
    chain_eq := by rw [h.chain_eq, cons_append]
    post_count := forall_mem_cons.mpr ⟨hb, h.post_count⟩ }

lemma extend {coins : List Coin} (h : GroupShape start chain G info post own carried pre)
    (hb : b.HasMints G coins) (habove : ∀ c ∈ chain, ∀ id, G < id → countCoinInBlock c id = 0) :
    GroupShape start (b :: chain) G
      { info with lastBlock := some b.hash, nCoins := info.nCoins + coins.length }
      [] (b :: (post ++ own)) carried pre := by
  have hpost : ∀ c ∈ post, ∀ id, countCoinInBlock c id = 0 := by
    intro c hc id
    rcases le_or_gt id G with hid | hid
    · exact h.post_count c hc id hid
    · exact habove c (by rw [h.chain_eq]; exact mem_append_left _ hc) id hid
  constructor
  · rw [h.chain_eq]
    simp
  · simp
  · intro c hc id hid
    rcases mem_cons.mp hc with rfl | hc
    · rw [hb.countCoinInBlock, if_neg (Ne.symm hid)]
    · rcases mem_append.mp hc with hc | hc
      · exact hpost c hc id
      · exact h.own_count c hc id hid
  · exact h.carried_count
  · exact h.pre_count
  · exact ⟨b, post ++ own, rfl, hb.count_ne_zero, rfl⟩
  · obtain ⟨own', c, hown, hc, hfirst⟩ := h.oldest
    exact ⟨b :: (post ++ own'), c, by simp [hown], hc, hfirst⟩
  · exact h.carried_oldest
  · exact h.carried_full
  · change info.nCoins + coins.length = _
    rw [h.nCoins_eq, sumCount_cons, sumCount_append, hb.countCoinInBlock, if_pos rfl,
      sumCount_eq_zero fun c hc => hpost c hc G]
    omega

lemma openFresh {coins : List Coin} (hb : b.HasMints G coins)
    (hchain : ∀ c ∈ chain, ∀ id, G ≤ id → countCoinInBlock c id = 0)
    (hfull : start = 0 ∨ ∀ c ∈ chain, countCoinInBlock c (G - 1) = 0) :
    GroupShape start (b :: chain) G ⟨some b.hash, some b.hash, coins.length⟩
      [] [b] [] chain := by
  constructor
  · rfl
  · simp
  · intro c hc id hid
    rw [mem_singleton.mp hc, hb.countCoinInBlock, if_neg (Ne.symm hid)]
  · simp
  · exact hchain
  · exact ⟨b, [], rfl, hb.count_ne_zero, rfl⟩
  · exact ⟨[], b, rfl, hb.count_ne_zero, fun _ => rfl⟩
  · intro l c hc
    simp at hc
  · refine hfull.imp_left fun hstart => ?_
    rw [hstart]
    exact Nat.zero_le _
  · simp [hb.countCoinInBlock]

lemma countBack_below (h : GroupShape start chain G info post own carried pre)
    (hnodup : (chain.map hash).Nodup) :
    ∃ last rest, info.lastBlock = some last ∧ below hash last chain = own ++ rest ∧
      rest = carried ++ pre ∧ ∀ b ∈ rest, countCoinInBlock b G = 0 := by
  obtain ⟨b, own', hown, -, hlast⟩ := h.newest
  refine ⟨b.hash, carried ++ pre, hlast, ?_, rfl, ?_⟩
  · have hchain : chain = post ++ b :: (own' ++ (carried ++ pre)) := by
      rw [h.chain_eq, hown]
      rfl
    rw [hchain] at hnodup ⊢
    rw [below_append_cons (key_ne_of_nodup hnodup), hown]
    rfl
  · intro c hc
    rcases mem_append.mp hc with hc | hc
    · exact h.carried_count c hc G (by omega)
    · exact h.pre_count c hc G le_rfl

/-- A block that opens the next group: the group reuses the newest blocks that
`CountLastNCoins` counted. -/
lemma openNext {coins : List Coin} {n : Nat} {first : BlockPtr}
    (h : GroupShape start chain G info post own carried pre)
    (hnodup : (chain.map hash).Nodup) (hb : b.HasMints (G + 1) coins)
    (habove : ∀ c ∈ chain, ∀ id, G < id → countCoinInBlock c id = 0)
    (hcount : ∀ last, info.lastBlock = some last → CSparkState.countBack G start (below
      hash last chain) 0 none = (n, first)) :
    ∃ carried' pre', GroupShape start (b :: chain) (G + 1)
      ⟨first.or (some b.hash), some b.hash, n + coins.length⟩ [] [b] carried' pre' ∧
      sumCount G carried' = n := by
  obtain ⟨last, rest, hlast, hbelow, hrest, hzero⟩ := h.countBack_below hnodup
  have hcount := hcount last hlast
  rw [hbelow] at hcount
  obtain ⟨p, q, hpq, hsum, hfirst, hstop⟩ := CSparkState.countBack_spec start own hzero 0 none
  rw [hcount] at hsum hfirst
  simp only [zero_add] at hsum hfirst hstop
  have hpre : ∀ c ∈ q ++ rest, ∀ id, G + 1 ≤ id → countCoinInBlock c id = 0 := by
    intro c hc id hid
    refine habove c ?_ id (by omega)
    rw [h.chain_eq, hpq, ← hrest]
    simp only [mem_append] at hc ⊢
    tauto
  have hpost : ∀ c ∈ post, ∀ id, countCoinInBlock c id = 0 := by
    intro c hc id
    rcases le_or_gt id G with hid | hid
    · exact h.post_count c hc id hid
    · exact habove c (by rw [h.chain_eq]; exact mem_append_left _ hc) id hid
  rcases hfirst with ⟨rfl, hf⟩ | ⟨p', c, rfl, hc, hf, hlt⟩
  · refine ⟨[], chain, ?_, by simpa using hsum.symm⟩
    rw [sumCount_nil] at hsum
    rw [hf, hsum, zero_add]
    refine openFresh hb (fun c hc id hid => habove c hc id (by omega)) ?_
    rw [nil_append] at hpq
    refine hstop.imp Nat.le_zero.mp fun hown c hc => ?_
    rw [add_sub_cancel_right]
    rw [h.chain_eq, ← hrest, hpq, mem_append, mem_append] at hc
    rcases hc with hc | hc | hc
    · exact hpost c hc G
    · exact hown c hc
    · exact hzero c hc
  · refine ⟨post ++ (p' ++ [c]), q ++ rest, ?_, ?_⟩
    · constructor
      · rw [h.chain_eq, hpq, hrest]
        simp
      · simp
      · intro d hd id hid
        rw [mem_singleton.mp hd, hb.countCoinInBlock, if_neg (Ne.symm hid)]
      · intro d hd id hid
        rcases mem_append.mp hd with hd | hd
        · exact hpost d hd id
        · exact h.own_count d (by rw [hpq]; exact mem_append_left _ hd) id (by omega)
      · exact hpre
      · exact ⟨b, [], rfl, hb.count_ne_zero, rfl⟩
      · exact ⟨[], b, rfl, hb.count_ne_zero, by simp⟩
      · intro l d hl
        rw [← append_assoc] at hl
        obtain ⟨rfl, hd⟩ := append_inj' hl rfl
        rw [singleton_inj] at hd
        subst hd
        refine ⟨by simpa using hc, by rw [hf]; rfl, ?_⟩
        simpa [sumCount_eq_zero fun c hc => hpost c hc G] using hlt
      · rw [add_sub_cancel_right, sumCount_append, sumCount_eq_zero fun c hc => hpost c hc G,
          zero_add]
        refine hstop.imp_right fun hq c hc => ?_
        exact (mem_append.mp hc).elim (hq c) (hzero c)
      · simp [hb.countCoinInBlock, sumCount_eq_zero fun c hc => hpost c hc G, hsum, add_comm]
    · simp [sumCount_eq_zero fun c hc => hpost c hc G, hsum]

end GroupShape

end Firo.Spark
