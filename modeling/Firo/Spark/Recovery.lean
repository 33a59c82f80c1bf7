import Firo.Spark.Growth

/-! A wallet recovers its coins from the coins of a group: all at once, from the newest block down
to the first block of the group, or in pages that are counted from a reference block.
`GetAnonSetMetaData` tells the reference block and the size. -/
namespace Firo.Spark

open Firo.Lib
open List hiding le_antisymm not_le not_lt

variable {Coin Tag Context : Type}

section

variable (context : CBlockIndex Coin Tag → Coin → Context)

/-- The coins that a walk takes from a block, each with `sparkTxHashContext[coin.S]` of the
block. -/
def recoveryCoinsOf (groupId : Int) (block : CBlockIndex Coin Tag) : List (Coin × Context) :=
  (coinSetOf groupId (groupId - 1) block).map fun coin => (coin, context block coin)

structure RecoverySet (Coin Context : Type) where
  numberOfCoins : Nat := 0
  blockHash : Option Uint256 := none
  coins : List (Coin × Context) := []
  setHash : List UInt8 := []

def recoveryLoop (s : CSparkState Coin Tag) (includeFirstBlock : Bool) (maxHeight groupId : Int)
    (firstBlock : BlockPtr) (startBlockHash : Option Uint256) :
    List (CBlockIndex Coin Tag) → RecoverySet Coin Context → Option (RecoverySet Coin Context)
  | [], _ => none
  | block :: rest, out => do
    if maxHeight < block.nHeight then
      recoveryLoop s includeFirstBlock maxHeight groupId firstBlock startBlockHash rest out
    else if some block.hash = startBlockHash then some out
    else
      let id := coinSetId groupId (groupId - 1) block
      let out ←
        if id ≠ 0 then do
          let out ←
            if out.numberOfCoins = 0 then do
              let setHash ← getAnonymitySetHash s (block :: rest) id false includeFirstBlock
              some { out with blockHash := some block.hash, setHash := setHash }
            else some out
          let coins := recoveryCoinsOf context groupId block
          some { out with
            numberOfCoins := out.numberOfCoins + coins.length
            coins := out.coins ++ coins }
        else some out
      if some block.hash = firstBlock then some out
      else recoveryLoop s includeFirstBlock maxHeight groupId firstBlock startBlockHash rest out

/-- `GetCoinsForRecovery` by hash; a string that is no block hash is `none`. The result is
`none` where the source follows a null pointer. -/
def getCoinsForRecoveryByHash (cp : ConsensusParams) (s : CSparkState Coin Tag)
    (chain : List (CBlockIndex Coin Tag)) (maxHeight coinGroupID : Int)
    (startBlockHash : Option Uint256) : Option (RecoverySet Coin Context) :=
  match s.coinGroups coinGroupID with
  | none => some {}
  | some coinGroup =>
    match coinGroup.lastBlock with
    | none => none
    | some last =>
      recoveryLoop context s (includeFirstBlockSetHash cp (nextBlockHeight chain)) maxHeight
        coinGroupID coinGroup.firstBlock startBlockHash (below CBlockIndex.hash last chain) {}

structure AnonSetMetaData where
  blockHash : Option Uint256 := none
  setHash : List UInt8 := []
  size : Nat := 0

/-- The loop of `GetAnonSetMetaData`, which does not look at the height. -/
def metaDataLoop (s : CSparkState Coin Tag) (includeFirstBlock : Bool) (groupId : Int)
    (firstBlock : BlockPtr) : List (CBlockIndex Coin Tag) → AnonSetMetaData → Option AnonSetMetaData
  | [], _ => none
  | block :: rest, out => do
    let id := coinSetId groupId (groupId - 1) block
    let out ←
      if id ≠ 0 then do
        let out ←
          if out.size = 0 then do
            let setHash ← getAnonymitySetHash s (block :: rest) id false includeFirstBlock
            some { out with blockHash := some block.hash, setHash := setHash }
          else some out
        some { out with size := out.size + (coinSetOf groupId (groupId - 1) block).length }
      else some out
    if some block.hash = firstBlock then some out
    else metaDataLoop s includeFirstBlock groupId firstBlock rest out

def getAnonSetMetaData (cp : ConsensusParams) (s : CSparkState Coin Tag)
    (chain : List (CBlockIndex Coin Tag)) (coinGroupID : Int) : Option AnonSetMetaData :=
  match s.coinGroups coinGroupID with
  | none => some {}
  | some coinGroup =>
    match coinGroup.lastBlock with
    | none => none
    | some last =>
      metaDataLoop s (includeFirstBlockSetHash cp (nextBlockHeight chain)) coinGroupID
        coinGroup.firstBlock (below CBlockIndex.hash last chain) {}

/-- The loop over the coins of a block in `GetCoinsForRecovery` by index: the counter and the
page after the block. -/
def takePage {α : Type} (startIndex endIndex : Int) : List α → Nat → List α → Nat × List α
  | [], counter, page => (counter, page)
  | coin :: coins, counter, page =>
    if counter < startIndex then takePage startIndex endIndex coins (counter + 1) page
    else if endIndex ≤ counter then (counter, page)
    else takePage startIndex endIndex coins (counter + 1) (page ++ [coin])

def pageLoop (maxHeight groupId : Int) (firstBlock : BlockPtr) (startIndex endIndex : Int) :
    List (CBlockIndex Coin Tag) → Nat → List (Coin × Context) → Option (List (Coin × Context))
  | [], _, _ => none
  | block :: rest, counter, page =>
    if maxHeight < block.nHeight then
      pageLoop maxHeight groupId firstBlock startIndex endIndex rest counter page
    else
      let (counter, page) :=
        takePage startIndex endIndex (recoveryCoinsOf context groupId block) counter page
      if some block.hash = firstBlock ∨ endIndex ≤ counter then some page
      else pageLoop maxHeight groupId firstBlock startIndex endIndex rest counter page

inductive RecoveryError
  | runtimeError (message : String)
  | nullPointer
  deriving DecidableEq

def incorrectBlockHash (blockHash : Uint256) : RecoveryError :=
  .runtimeError ("Incorrect blockHash provided: " ++ blockHash.toHex)

/-- `GetCoinsForRecovery` by index. The search for the block hash is the one of
`CheckSparkSpendTransaction`. -/
def getCoinsForRecovery (s : CSparkState Coin Tag) (chain : List (CBlockIndex Coin Tag))
    (maxHeight coinGroupID startIndex endIndex : Int) (blockHash : Uint256) :
    Except RecoveryError (List (Coin × Context)) :=
  match s.coinGroups coinGroupID with
  | none => .error (.runtimeError s!"There is no anonymity set with this id: {coinGroupID}")
  | some coinGroup =>
    match coinGroup.lastBlock with
    | none => .error .nullPointer
    | some last =>
      match findReference coinGroup.firstBlock blockHash (below CBlockIndex.hash last chain) with
      | none => .error .nullPointer
      | some index =>
        if (index.head?.map CBlockIndex.hash) = coinGroup.firstBlock ∧
            coinGroup.firstBlock ≠ coinGroup.lastBlock then
          .error (incorrectBlockHash blockHash)
        else
          match pageLoop context maxHeight coinGroupID coinGroup.firstBlock startIndex endIndex
            index 0 [] with
          | none => .error .nullPointer
          | some coins => .ok coins

end

section

variable {α ε : Type} {start stop counter : Nat} {page : List α}

lemma takePage_eq (coins) (hle : start ≤ stop) (hcounter : counter ≤ stop) :
    takePage start stop coins counter page = (min (counter + coins.length) stop,
        page ++ (coins.take (stop - counter)).drop (start - counter)) := by
  induction coins generalizing counter page with
  | nil => simp [takePage, hcounter]
  | cons coin coins ih =>
    rw [takePage, length_cons]
    split
    · rename_i hskip
      have hskip' : counter < start := by exact_mod_cast hskip
      rw [ih (by omega), show stop - counter = stop - (counter + 1) + 1 by omega,
        show start - counter = start - (counter + 1) + 1 by omega, take_succ_cons,
        drop_succ_cons, show counter + 1 + coins.length = counter + (coins.length + 1) by omega]
    · rename_i hskip
      have hskip' : start ≤ counter := by exact_mod_cast not_lt.mp hskip
      split
      · rename_i hend
        have hend' : stop = counter := le_antisymm (by exact_mod_cast hend) hcounter
        simp [hend']
      · rename_i hend
        have hend' : counter < stop := by exact_mod_cast not_le.mp hend
        rw [ih (by omega), show stop - counter = stop - (counter + 1) + 1 by omega,
          show start - counter = 0 by omega, show start - (counter + 1) = 0 by omega,
          take_succ_cons, drop_zero, drop_zero, append_assoc,
          singleton_append,
          show counter + 1 + coins.length = counter + (coins.length + 1) by omega]

/-- The cuts `0 < i₁ < … < iₖ` of a set of the given size. -/
def IsPartition (cuts : List Nat) (size : Nat) : Prop :=
  (0 :: cuts).IsChain (· < ·) ∧ (0 :: cuts).getLast? = some size

/-- The client that asks for the pages between the cuts and joins them. -/
def recoverPages (query : Int → Int → Except ε (List α)) (cuts : List Nat) : Except ε (List α) := do
  let pages ← ((0 :: cuts).zip cuts).mapM fun (i, j) => query i j
  return pages.flatten

variable {l : List α} {size : Nat} {cuts : List Nat}

lemma flatMap_pages {first : Nat}
    (hcuts : (first :: cuts).IsChain (· < ·)) (hlast : (first :: cuts).getLast? = some size) :
    (((first :: cuts).zip cuts).flatMap fun (i, j) => (l.take j).drop i) =
      (l.take size).drop first := by
  induction cuts generalizing first with
  | nil =>
    obtain rfl : first = size := by simpa using hlast
    simp
  | cons next cuts ih =>
    rw [isChain_cons_cons] at hcuts
    rw [getLast?_cons_cons] at hlast
    have hle : next ≤ size := by
      rcases mem_cons.mp (mem_of_getLast? hlast) with heq | hmem
      · exact heq.ge
      · exact ((pairwise_cons.mp (isChain_iff_pairwise.mp hcuts.2)).1 size hmem).le
    have htake : l.take next = (l.take size).take next := by
      rw [take_take, min_eq_left hle]
    rw [zip_cons_cons, flatMap_cons, ih hcuts.2 hlast]
    calc (l.take next).drop first ++ (l.take size).drop next
        = ((l.take size).drop first).take (next - first) ++
          ((l.take size).drop first).drop (next - first) := by
          rw [htake, drop_take, drop_drop, Nat.add_sub_of_le hcuts.1.le]
      _ = (l.take size).drop first := take_append_drop _ _

lemma mapM_ok {β : Type} {f : α → Except ε β} {g : α → β}
    (h : ∀ a ∈ l, f a = .ok (g a)) : l.mapM f = .ok (l.map g) := by
  induction l with
  | nil => rfl
  | cons a l ih =>
    rw [forall_mem_cons] at h
    rw [mapM_cons, h.1, ih h.2]
    rfl

lemma lt_of_mem_zip {first : Nat} (hcuts : (first :: cuts).IsChain (· < ·))
    {p} (hp : p ∈ (first :: cuts).zip cuts) : p.1 < p.2 := by
  induction cuts generalizing first with
  | nil => simp at hp
  | cons next cuts ih =>
    rw [isChain_cons_cons] at hcuts
    rcases mem_cons.mp hp with rfl | hp
    · exact hcuts.1
    · exact ih hcuts.2 hp

variable {query : Int → Int → Except ε (List α)}

lemma recoverPages_eq (hquery : ∀ i j : Nat, i ≤ j → query i j = .ok ((l.take j).drop i))
    (hcuts : IsPartition cuts l.length) : recoverPages query cuts = .ok l := by
  obtain ⟨hchain, hlast⟩ := hcuts
  have hpages : ((0 :: cuts).zip cuts).mapM (fun p : Nat × Nat => query p.1 p.2) =
      .ok (((0 :: cuts).zip cuts).map fun p => (l.take p.2).drop p.1) := by
    exact mapM_ok fun p hp => hquery p.1 p.2 (lt_of_mem_zip hchain hp).le
  have hjoin := flatMap_pages (l := l) hchain hlast
  rw [take_length, drop_zero] at hjoin
  rw [recoverPages, hpages]
  exact congrArg Except.ok hjoin

lemma recoverPages_error {e : ε} (hquery : query (0 : Nat) size = .error e) :
    recoverPages query [size] = .error e := by
  simp only [recoverPages, zip_cons_cons, zip_nil_right, mapM_cons, hquery]
  rfl

end

section

variable {s : CSparkState Coin Tag} {context : CBlockIndex Coin Tag → Coin → Context}
  {incl : Bool} {maxHeight G : Int} {first : BlockPtr} {f : CBlockIndex Coin Tag}
  {seg rest : List (CBlockIndex Coin Tag)}

variable {b : CBlockIndex Coin Tag}

lemma recoveryCoinsOf_eq_nil (h : coinSetId G (G - 1) b = 0) :
    recoveryCoinsOf context G b = [] := by
  simp [recoveryCoinsOf, coinSetOf, h]

lemma pageLoop_eq {start stop counter : Nat} {page} (hle : start ≤ stop)
    (hcounter : counter ≤ stop) (hheight : ∀ b ∈ seg ++ [f], b.nHeight ≤ maxHeight)
    (hfirst : first = some f.hash) (hseg : ∀ b ∈ seg, b.hash ≠ f.hash) :
    pageLoop context maxHeight G first start stop (seg ++ f :: rest) counter page =
      some (page ++ (((seg ++ [f]).flatMap (recoveryCoinsOf context G)).take
        (stop - counter)).drop (start - counter)) := by
  induction seg generalizing counter page with
  | nil =>
    have hf : ¬maxHeight < f.nHeight := not_lt.mpr (hheight f (by simp))
    simp [pageLoop, hf, hfirst, takePage_eq _ hle hcounter]
  | cons b seg ih =>
    rw [forall_mem_cons] at hseg
    rw [cons_append, forall_mem_cons] at hheight
    have hb : ¬maxHeight < b.nHeight := not_lt.mpr hheight.1
    have hne : ¬some b.hash = first := by rw [hfirst, Option.some.injEq]; exact hseg.1
    rw [cons_append, pageLoop, if_neg hb, takePage_eq _ hle hcounter]
    simp only [hne, false_or, cons_append, flatMap_cons]
    set coins := recoveryCoinsOf context G b
    set older := (seg ++ [f]).flatMap (recoveryCoinsOf context G)
    by_cases hend : stop ≤ counter + coins.length
    · rw [min_eq_right hend, if_pos le_rfl, take_append_of_le_length (by omega)]
    · rw [min_eq_left (by omega), if_neg (by omega), ih (by omega) hheight.2 hseg.2,
        append_assoc, take_append, drop_append, length_take,
        take_of_length_le (by omega), min_eq_right (by omega),
        show stop - (counter + coins.length) = stop - counter - coins.length by omega,
        show start - (counter + coins.length) = start - counter - coins.length by omega]

variable {previousId : Int} {out : RecoverySet Coin Context} {blocks : List (CBlockIndex Coin Tag)}

lemma countCoinInBlock_coinSetId (h : coinSetId G previousId b ≠ 0) :
    countCoinInBlock b (coinSetId G previousId b) ≠ 0 := by
  unfold coinSetId at h ⊢
  split_ifs at h ⊢
  · assumption
  · assumption
  · exact absurd rfl h

lemma coinSetOf_eq_nil_iff : coinSetOf G previousId b = [] ↔ coinSetId G previousId b = 0 := by
  refine ⟨fun hnil => ?_, fun hzero => by simp [coinSetOf, hzero]⟩
  by_contra hid
  apply countCoinInBlock_coinSetId hid
  rw [coinSetOf, if_pos hid] at hnil
  unfold countCoinInBlock
  cases hget : b.sparkMintedCoins[coinSetId G previousId b]? with
  | none => rfl
  | some coins => simpa [hget] using hnil

lemma recoveryLoop_skip {start} {newer} (h : ∀ b ∈ newer, maxHeight < b.nHeight) :
    recoveryLoop context s incl maxHeight G first start (newer ++ rest) out =
      recoveryLoop context s incl maxHeight G first start rest out := by
  induction newer with
  | nil => rfl
  | cons b newer ih =>
    rw [forall_mem_cons] at h
    rw [cons_append, recoveryLoop, if_pos h.1, ih h.2]

/-- What the walk by hash does at a block: it takes the coins, and remembers the block if it
has the first coins. -/
structure Collected (context : CBlockIndex Coin Tag → Coin → Context) (G : Int)
    (blocks : List (CBlockIndex Coin Tag)) (out out' : RecoverySet Coin Context) : Prop where
  coins_eq : out'.coins = out.coins ++ blocks.flatMap (recoveryCoinsOf context G)
  number_eq : out'.numberOfCoins =
    out.numberOfCoins + (blocks.flatMap (recoveryCoinsOf context G)).length
  kept : out.numberOfCoins ≠ 0 → out'.blockHash = out.blockHash
  taken : ∀ b ∈ blocks.head?, coinSetId G (G - 1) b ≠ 0 → out.numberOfCoins = 0 →
    out'.blockHash = some b.hash

lemma Collected.append {out₁ out₂} (h : Collected context G [b] out out₁)
    (h' : Collected context G blocks out₁ out₂) : Collected context G (b :: blocks) out out₂ := by
  have hcoins := h.coins_eq
  have hnumber := h.number_eq
  rw [flatMap_singleton] at hcoins hnumber
  constructor
  · rw [h'.coins_eq, hcoins, flatMap_cons, append_assoc]
  · rw [h'.number_eq, hnumber, flatMap_cons, length_append, add_assoc]
  · intro hne
    rw [h'.kept (by omega), h.kept hne]
  · intro c hc hid hzero
    obtain rfl : b = c := by simpa using hc
    have hpos : (recoveryCoinsOf context G b).length ≠ 0 := by
      rw [recoveryCoinsOf, length_map, ne_eq, length_eq_zero_iff]
      exact fun hnil => hid (coinSetOf_eq_nil_iff.mp hnil)
    rw [h'.kept (by omega), h.taken b rfl hid hzero]

lemma recoveryLoop_cons (first) (out) (hheight : b.nHeight ≤ maxHeight)
    (hset : coinSetId G (G - 1) b ≠ 0 → ∃ hash, getAnonymitySetHash s (b ::
      rest) (coinSetId G (G - 1) b) false incl = some hash) :
    ∃ out', recoveryLoop context s incl maxHeight G first none (b :: rest) out =
        (if some b.hash = first then some out'
          else recoveryLoop context s incl maxHeight G first none rest out') ∧
      Collected context G [b] out out' := by
  have hb : ¬maxHeight < b.nHeight := not_lt.mpr hheight
  by_cases hid : coinSetId G (G - 1) b = 0
  · refine ⟨out, by simp [recoveryLoop, hb, hid], ?_⟩
    have hnil : recoveryCoinsOf context G b = [] := recoveryCoinsOf_eq_nil hid
    constructor <;> simp [hnil, hid]
  · obtain ⟨hash, hhash⟩ := hset hid
    by_cases hzero : out.numberOfCoins = 0
    · refine ⟨{ out with
        numberOfCoins := out.numberOfCoins + (recoveryCoinsOf context G b).length
        blockHash := some b.hash
        coins := out.coins ++ recoveryCoinsOf context G b
        setHash := hash }, by simp [recoveryLoop, hb, hid, hzero, hhash], ?_⟩
      constructor <;> simp [hzero]
    · refine ⟨{ out with
        numberOfCoins := out.numberOfCoins + (recoveryCoinsOf context G b).length
        coins := out.coins ++ recoveryCoinsOf context G b },
        by simp [recoveryLoop, hb, hid, hzero], ?_⟩
      constructor <;> simp [hzero]

lemma recoveryLoop_collect (out)
    (hheight : ∀ b ∈ seg ++ [f], b.nHeight ≤ maxHeight) (hfirst : first = some f.hash)
    (hseg : ∀ b ∈ seg, b.hash ≠ f.hash)
    (hset : ∀ newer b tail, seg ++ [f] = newer ++ b :: tail → coinSetId G (G - 1) b ≠ 0 →
      ∃ hash, getAnonymitySetHash s (b :: (tail ++ rest)) (coinSetId G (G - 1) b) false incl =
        some hash) :
    ∃ out', recoveryLoop context s incl maxHeight G first none (seg ++ f :: rest) out = some out' ∧
      Collected context G (seg ++ [f]) out out' := by
  induction seg generalizing out with
  | nil =>
    obtain ⟨out', hloop, hcollected⟩ := recoveryLoop_cons first out
      (hheight f (by simp)) (hset [] f [] rfl)
    rw [if_pos hfirst.symm] at hloop
    exact ⟨out', hloop, hcollected⟩
  | cons b seg ih =>
    rw [forall_mem_cons] at hseg
    rw [cons_append, forall_mem_cons] at hheight
    obtain ⟨out₁, hloop, hcollected⟩ := recoveryLoop_cons first out hheight.1
      (hset [] b (seg ++ [f]) rfl)
    obtain ⟨out₂, hloop₂, hcollected₂⟩ := ih out₁ hheight.2 hseg.2 fun newer c tail h =>
      hset (b :: newer) c tail (by rw [cons_append, h, cons_append])
    refine ⟨out₂, ?_, hcollected.append hcollected₂⟩
    have hne : ¬some b.hash = first := by rw [hfirst, Option.some.injEq]; exact hseg.1
    rw [if_neg hne, append_assoc, singleton_append] at hloop
    rw [cons_append, hloop, hloop₂]

lemma metaDataLoop_eq (context) (out : RecoverySet Coin Context)
    (hheight : ∀ b ∈ blocks, b.nHeight ≤ maxHeight) :
    metaDataLoop s incl G first blocks ⟨out.blockHash, out.setHash, out.numberOfCoins⟩ =
      (recoveryLoop context s incl maxHeight G first none blocks out).map fun out =>
        ⟨out.blockHash, out.setHash, out.numberOfCoins⟩ := by
  induction blocks generalizing out with
  | nil => rfl
  | cons b blocks ih =>
    rw [forall_mem_cons] at hheight
    have hb : ¬maxHeight < b.nHeight := not_lt.mpr hheight.1
    have hlength : (coinSetOf G (G - 1) b).length = (recoveryCoinsOf context G b).length := by
      rw [recoveryCoinsOf, length_map]
    by_cases hid : coinSetId G (G - 1) b = 0
    · by_cases hf : some b.hash = first
      · simp [metaDataLoop, recoveryLoop, hb, hid, hf]
      · simp [metaDataLoop, recoveryLoop, hb, hid, hf, ih out hheight.2]
    · have hnext (hash : Option Uint256) (setHash : List UInt8) :=
        ih ⟨out.numberOfCoins + (recoveryCoinsOf context G b).length, hash,
          out.coins ++ recoveryCoinsOf context G b, setHash⟩ hheight.2
      by_cases hzero : out.numberOfCoins = 0
      · cases hhash : getAnonymitySetHash s (b :: blocks) (coinSetId G (G - 1) b) false incl with
        | none => simp [metaDataLoop, recoveryLoop, hb, hid, hzero, hhash]
        | some setHash =>
          have hnext := hnext (some b.hash) setHash
          by_cases hf : some b.hash = first
          · subst hf
            simp [metaDataLoop, recoveryLoop, hb, hid, hzero, hhash, hlength]
          · simp only [hzero, zero_add] at hnext
            simp [metaDataLoop, recoveryLoop, hb, hid, hzero, hhash, hf, hlength, hnext]
      · have hnext := hnext out.blockHash out.setHash
        by_cases hf : some b.hash = first
        · subst hf
          simp [metaDataLoop, recoveryLoop, hb, hid, hzero, hlength]
        · simp [metaDataLoop, recoveryLoop, hb, hid, hzero, hf, hlength, hnext]

end

/-- The blocks from `lastBlock` down to `firstBlock`. -/
def groupRange (info : SparkCoinGroupInfo) (chain : List (CBlockIndex Coin Tag)) :
    Option (List (CBlockIndex Coin Tag)) :=
  match info.lastBlock, info.firstBlock with
  | some last, some first => upTo CBlockIndex.hash first (below CBlockIndex.hash last chain)
  | _, _ => none

section

variable {s : CSparkState Coin Tag} {context : CBlockIndex Coin Tag → Coin → Context}
  {chain post own carried pre newer tail rest : List (CBlockIndex Coin Tag)}
  {b : CBlockIndex Coin Tag} {G id maxHeight : Int} {info : SparkCoinGroupInfo} {start : Nat}
  {incl : Bool}

lemma StateInv.getAnonymitySetHash_isSome [DecidableEq Coin] [DecidableEq Tag]
    (h : StateInv s chain) (hchain : chain = newer ++ b :: rest)
    (hcount : countCoinInBlock b id ≠ 0) :
    ∃ hash, getAnonymitySetHash s (b :: rest) id false incl = some hash := by
  rw [getAnonymitySetHash]
  split
  · exact ⟨_, rfl⟩
  rename_i info hinfo
  split
  · exact ⟨_, rfl⟩
  rename_i hcoins
  obtain ⟨rfl, -⟩ | ⟨-, -, post, own, carried, pre, hshape⟩ := h.group_cases hinfo
  · simp at hcoins
  · have hnodup := h.wellPlaced.nodup
    obtain ⟨above, tail, hown⟩ := append_of_mem (hshape.mem_own (by rw [hchain]; simp) hcount)
    obtain ⟨seg, f, hseg, hfirst, -, -⟩ := hshape.split_segment hnodup
      (show own ++ carried = above ++ b :: (tail ++ carried) by rw [hown]; simp)
    have hsplit : newer ++ b :: rest = (post ++ above) ++ b :: (tail ++ (carried ++ pre)) := by
      rw [← hchain, hshape.chain_eq, hown]
      simp
    rw [hchain] at hnodup
    obtain ⟨-, hrest⟩ := split_unique hnodup hsplit
    have hbelow : b :: rest = seg ++ f :: pre := by
      rw [hrest, ← append_assoc, ← cons_append, hseg]
      simp
    rw [hbelow]
    exact findSetHash_isSome hfirst

namespace GroupShape

variable (h : GroupShape start chain G info post own carried pre)
  (hnodup : (chain.map CBlockIndex.hash).Nodup)
include h hnodup

lemma groupRange_eq : groupRange info chain = some (own ++ carried) := by
  obtain ⟨e, own', hown, -, hlast⟩ := h.newest
  obtain ⟨seg, f, hseg, hfirst, -, hne⟩ := h.split_segment hnodup
    (show own ++ carried = [] ++ e :: (own' ++ carried) by rw [hown]; rfl)
  have hrange : own ++ carried = seg ++ [f] := by rw [hown, ← hseg]; rfl
  rw [groupRange, hlast, hfirst]
  simp only
  rw [h.below_last hnodup hlast, ← append_assoc, hrange, append_assoc,
    singleton_append, upTo_append_cons hne]

lemma eq_singleton (heq : info.firstBlock = info.lastBlock) : ∃ f, own ++ carried = [f] := by
  obtain ⟨e, own', hown, -, hlast⟩ := h.newest
  have hrange : own ++ carried = [] ++ e :: (own' ++ carried) := by
    rw [hown]
    rfl
  obtain ⟨seg, f, hseg, hfirst, -, hne⟩ := h.split_segment hnodup hrange
  rw [hrange, nil_append, hseg]
  cases seg with
  | nil => exact ⟨f, rfl⟩
  | cons c seg =>
    rw [cons_append, List.cons.injEq] at hseg
    rw [hlast, hfirst, Option.some.injEq, hseg.1] at heq
    exact absurd heq.symm (hne c mem_cons_self)

lemma getCoinsForRecovery_eq (context : CBlockIndex Coin Tag → Coin → Context)
    (hs : s.coinGroups G = some info) (hrange : own ++ carried = newer ++ b :: tail)
    (hheight : ∀ c ∈ b :: tail, c.nHeight ≤ maxHeight) {i j : Nat} (hij : i ≤ j) :
    getCoinsForRecovery context s chain maxHeight G i j b.hash =
      if some b.hash = info.firstBlock ∧ info.firstBlock ≠ info.lastBlock then
        .error (incorrectBlockHash b.hash)
      else .ok ((((b :: tail).flatMap (recoveryCoinsOf context G)).take j).drop i) := by
  obtain ⟨last, hlast⟩ : ∃ last, info.lastBlock = some last := by
    obtain ⟨e, -, -, -, he⟩ := h.newest
    exact ⟨_, he⟩
  obtain ⟨seg, f, hseg, hfirst, -, hne⟩ := h.split_segment hnodup hrange
  have hpage : pageLoop context maxHeight G info.firstBlock i j (b :: (tail ++ pre)) 0 [] =
      some ((((b :: tail).flatMap (recoveryCoinsOf context G)).take j).drop i) := by
    rw [← cons_append, hseg, append_assoc, singleton_append,
      pageLoop_eq hij (Nat.zero_le j) (hseg ▸ hheight) hfirst hne]
    simp
  rw [getCoinsForRecovery, hs]
  simp only [hlast]
  rw [h.below_last hnodup hlast, (h.walks hnodup hrange).1]
  simp only [hpage, head?_cons, Option.map_some]

lemma getCoinsForRecovery_outside (hs : s.coinGroups G = some info) {hash}
    (hout : ∀ c ∈ own ++ carried, c.hash ≠ hash) (i j : Int) :
    getCoinsForRecovery context s chain maxHeight G i j hash =
      .error (incorrectBlockHash hash) ↔ info.firstBlock ≠ info.lastBlock := by
  obtain ⟨last, hlast⟩ : ∃ last, info.lastBlock = some last := by
    obtain ⟨e, -, -, -, he⟩ := h.newest
    exact ⟨_, he⟩
  obtain ⟨seg, f, hseg, hfirst⟩ := h.segment
  obtain ⟨newer, d, tail, hsplit, hfind, hd, -⟩ : ∃ newer d tail, seg ++ [f] = newer ++ d :: tail ∧
      findReference info.firstBlock hash (seg ++ f :: pre) = some (d :: (tail ++ pre)) ∧
      (d.hash = hash ∨ some d.hash = info.firstBlock) ∧ ∀ b ∈ newer, b.hash ≠ hash :=
    findReference_spec hfirst
  have hfind' : findReference info.firstBlock hash (own ++ (carried ++ pre)) =
      some (d :: (tail ++ pre)) := by
    rw [← hfind, ← append_assoc, hseg]
    simp
  have hdfirst : some d.hash = info.firstBlock :=
    hd.resolve_left (hout d (by rw [hseg, hsplit]; simp))
  rw [getCoinsForRecovery, hs]
  simp only [hlast]
  rw [h.below_last hnodup hlast, hfind']
  simp only [head?_cons, Option.map_some, hdfirst, true_and]
  split
  · rename_i hne
    exact iff_of_true rfl hne
  · rename_i heq
    refine iff_of_false ?_ heq
    split <;> simp [incorrectBlockHash]

end GroupShape

lemma StateInv.recoveryByHash [DecidableEq Coin] [DecidableEq Tag] (hs : StateInv s chain)
    (context : CBlockIndex Coin Tag → Coin → Context) (cp)
    (h : GroupShape start chain G info post own carried pre) (hgroup : s.coinGroups G = some info)
    (hrange : own ++ carried = newer ++ b :: tail) (hnewer : ∀ c ∈ newer, maxHeight < c.nHeight)
    (hheight : ∀ c ∈ b :: tail, c.nHeight ≤ maxHeight) :
    ∃ out, getCoinsForRecoveryByHash context cp s chain maxHeight G none = some out ∧
      Collected context G (b :: tail) {} out := by
  have hnodup := hs.wellPlaced.nodup
  obtain ⟨last, hlast⟩ : ∃ last, info.lastBlock = some last := by
    obtain ⟨e, -, -, -, he⟩ := h.newest
    exact ⟨_, he⟩
  obtain ⟨seg, f, hseg, hfirst, -, hne⟩ := h.split_segment hnodup hrange
  rw [hseg] at hheight hrange
  obtain ⟨out, hloop, hcollected⟩ : ∃ out, recoveryLoop context s
      (includeFirstBlockSetHash cp (nextBlockHeight chain)) maxHeight G info.firstBlock none
        (seg ++ f :: pre) {} = some out ∧ Collected context G (seg ++ [f]) {} out := by
    refine recoveryLoop_collect {} hheight hfirst hne fun above c older hsplit hid => ?_
    have hchain : chain = (post ++ newer ++ above) ++ c :: (older ++ pre) := by
      rw [h.chain_eq, ← append_assoc own, hrange, hsplit]
      simp
    exact hs.getAnonymitySetHash_isSome hchain (countCoinInBlock_coinSetId hid)
  refine ⟨out, ?_, hseg ▸ hcollected⟩
  rw [getCoinsForRecoveryByHash, hgroup]
  simp only [hlast]
  rw [h.below_last hnodup hlast, ← append_assoc, hrange, append_assoc,
    recoveryLoop_skip hnewer, append_assoc, singleton_append, hloop]

lemma GroupShape.getAnonSetMetaData_eq (context : CBlockIndex Coin Tag → Coin → Context)
    (h : GroupShape start chain G info post own carried pre) (hwp : WellPlaced chain) (cp)
    (hgroup : s.coinGroups G = some info) (hrange : own ++ carried = newer ++ b :: tail)
    (hnewer : ∀ c ∈ newer, coinSetOf G (G - 1) c = []) (hG : G ≠ 0) :
    getAnonSetMetaData cp s chain G =
      (getCoinsForRecoveryByHash context cp s chain b.nHeight G none).map fun out =>
        ⟨out.blockHash, out.setHash, out.numberOfCoins⟩ := by
  obtain ⟨e, own', hown, he, hlast⟩ := h.newest
  have hnil : newer = [] := by
    cases newer with
    | nil => rfl
    | cons c newer =>
      rw [hown, cons_append, cons_append, List.cons.injEq] at hrange
      have hid := coinSetOf_eq_nil_iff.mp (hnewer c mem_cons_self)
      rw [← hrange.1, coinSetId, if_pos he] at hid
      exact absurd hid hG
  rw [hnil, nil_append] at hrange
  have hheight : ∀ c ∈ b :: (tail ++ pre), c.nHeight ≤ b.nHeight := by
    rw [h.chain_eq, ← append_assoc own, hrange, cons_append] at hwp
    exact forall_mem_cons.mpr ⟨le_rfl, fun c hc => (hwp.height_lt c hc).le⟩
  rw [getAnonSetMetaData, getCoinsForRecoveryByHash, hgroup]
  simp only [hlast]
  rw [h.below_last hwp.nodup hlast, ← append_assoc, hrange, cons_append]
  exact metaDataLoop_eq context {} hheight

lemma GroupShape.heights (h : GroupShape start chain G info post own carried pre)
    (hwp : WellPlaced chain) (hrange : own ++ carried = newer ++ b :: tail) :
    (∀ c ∈ newer, b.nHeight < c.nHeight) ∧ ∀ c ∈ b :: tail, c.nHeight ≤ b.nHeight := by
  have hchain : chain = post ++ (newer ++ b :: (tail ++ pre)) := by
    rw [h.chain_eq, ← append_assoc own, hrange]
    simp
  rw [hchain] at hwp
  constructor
  · intro c hc
    obtain ⟨above, older, rfl⟩ := append_of_mem hc
    have hc := hwp.append_right
    rw [append_assoc, cons_append] at hc
    exact hc.height_lt b (by simp)
  · rw [← append_assoc] at hwp
    refine forall_mem_cons.mpr ⟨le_rfl, fun c hc => ?_⟩
    exact (hwp.height_lt c (mem_append_left _ hc)).le

end

/-- Paged recovery equals full recovery, and foreign block hashes are refused, up to the first
block of the range. From every block with coins in the range of a group the walk by hash
collects the coins down to the first block, as many as `GetAnonSetMetaData` reports if no newer
block has coins; the pages of every partition join to them if and only if the block is not the
first one or the group has one block only. A block hash outside the range is refused if and
only if the group has more than one block. -/
theorem pagedRecovery_iff [DecidableEq Coin] [DecidableEq Tag] {maxCoinInGroup startGroupSize : Nat}
    {ok : ChainState Coin Tag → ChainAction Coin Tag → Prop} {s : CSparkState Coin Tag}
    {chain : List (CBlockIndex Coin Tag)}
    (hreach : ChainReach maxCoinInGroup startGroupSize ok (s, chain)) (cp : ConsensusParams)
    (context : CBlockIndex Coin Tag → Coin → Context) {G : Int} {info : SparkCoinGroupInfo}
    (hgroup : s.coinGroups G = some info) :
    (∀ newer b tail, groupRange info chain = some (newer ++ b :: tail) →
      coinSetOf G (G - 1) b ≠ [] →
      ∃ out, getCoinsForRecoveryByHash context cp s chain b.nHeight G none = some out ∧
        out.coins = (b :: tail).flatMap (recoveryCoinsOf context G) ∧
        ((∀ c ∈ newer, coinSetOf G (G - 1) c = []) → ∃ data, getAnonSetMetaData cp s chain G =
          some data ∧ data.blockHash = some b.hash ∧ data.size = out.coins.length) ∧
        ∀ maxHeight, b.nHeight ≤ maxHeight →
          ((∀ cuts, IsPartition cuts out.coins.length → recoverPages (fun i j =>
              getCoinsForRecovery context s chain maxHeight G i j b.hash) cuts = .ok out.coins) ↔
            (some b.hash = info.firstBlock → info.firstBlock = info.lastBlock))) ∧
    ∀ maxHeight, (∀ hash, (∀ range, groupRange info chain = some range →
          ∀ c ∈ range, c.hash ≠ hash) →
        ∀ i j, getCoinsForRecovery context s chain maxHeight G i j hash =
          .error (incorrectBlockHash hash)) ↔
      info.firstBlock ≠ info.lastBlock := by
  have hs : StateInv s chain := stateInv_of_reach hreach
  have hnodup := hs.wellPlaced.nodup
  obtain ⟨rfl, -⟩ | ⟨-, hG, post, own, carried, pre, h⟩ := hs.group_cases hgroup
  · refine ⟨fun newer b tail hrange => (nomatch hrange), fun maxHeight => ?_⟩
    refine iff_of_false (fun hall => ?_) (fun hne => hne rfl)
    have hrefused := hall 0 (fun range hrange => (nomatch hrange)) 0 0
    rw [getCoinsForRecovery, hgroup] at hrefused
    cases hrefused
  · rw [h.groupRange_eq hnodup]
    refine ⟨fun newer b tail hrange hcoins => ?_, fun maxHeight => ?_⟩
    · rw [Option.some.injEq] at hrange
      obtain ⟨hnewer, holder⟩ := h.heights hs.wellPlaced hrange
      obtain ⟨out, hout, hcollected⟩ := hs.recoveryByHash context cp h hgroup hrange hnewer holder
      have hcoinsEq : out.coins = (b :: tail).flatMap (recoveryCoinsOf context G) :=
        hcollected.coins_eq
      refine ⟨out, hout, hcoinsEq, fun hempty => ?_, fun maxHeight hle => ?_⟩
      · have hid : coinSetId G (G - 1) b ≠ 0 := fun hid => hcoins (coinSetOf_eq_nil_iff.mpr hid)
        refine ⟨_, by rw [h.getAnonSetMetaData_eq context hs.wellPlaced cp hgroup hrange
          hempty (by omega), hout, Option.map_some], hcollected.taken b rfl hid rfl, ?_⟩
        rw [hcoinsEq]
        simpa using hcollected.number_eq
      · have hquery {i j : Nat} (hij : i ≤ j) := h.getCoinsForRecovery_eq hnodup context
          hgroup hrange (fun c hc => (holder c hc).trans hle) hij
        rw [hcoinsEq]
        constructor
        · intro hpages hbfirst
          by_contra hne
          have hpos : 0 < ((b :: tail).flatMap (recoveryCoinsOf context G)).length := by
            have := length_pos_iff.mpr hcoins
            rw [flatMap_cons, length_append, recoveryCoinsOf, length_map]
            omega
          have hone := hpages [_] ⟨by simpa using hpos, rfl⟩
          rw [recoverPages_error ((hquery (Nat.zero_le _)).trans (if_pos ⟨hbfirst, hne⟩))] at hone
          cases hone
        · intro hcond cuts hcuts
          refine recoverPages_eq (fun i j hij => ?_) hcuts
          rw [hquery hij, if_neg]
          rintro ⟨hbfirst, hne⟩
          exact hne (hcond hbfirst)
    · constructor
      · intro hall heq
        obtain ⟨f, hf⟩ := h.eq_singleton hnodup heq
        have hout : ∀ c ∈ own ++ carried, c.hash ≠ f.hash + 1 := by
          intro c hc
          rw [hf, mem_singleton] at hc
          rw [hc]
          bv_omega
        have hrefused := hall (f.hash + 1) (fun range hrange => by cases hrange; exact hout) 0 0
        exact (h.getCoinsForRecovery_outside hnodup hgroup hout 0 0).mp hrefused heq
      · intro hne hash hout i j
        exact (h.getCoinsForRecovery_outside hnodup hgroup (hout _ rfl) i j).mpr hne

def twoBlocks : List (ChainAction Nat Nat) :=
  [.connect (.plain 1) [] [1], .connect (.plain 2) [] [2]]

theorem pagedRecovery_twoBlocks : ∃ x : ChainState Nat Nat, ChainReach 3 1 (fun _ _ => True) x ∧
      (x.1.coinGroups 1 = some ⟨some 1, some 2, 2⟩ ∧
        ∀ hash : Uint256, (∀ range, groupRange ⟨some 1, some 2, 2⟩ x.2 = some range →
          ∀ c ∈ range, c.hash ≠ hash) →
          ∀ i j, getCoinsForRecovery (fun _ _ => ()) x.1 x.2 2 1 i j hash =
            .error (incorrectBlockHash hash)) := by
  have hrun : (twoBlocks.foldlM chainStep ({ maxCoinInGroup := 3, startGroupSize := 1 },
      [])).any (fun x => decide (x.1.coinGroups 1 = some ⟨some 1, some 2, 2⟩)) = true := by
    decide +kernel
  obtain ⟨x, hx, hgroup⟩ := (Option.any_eq_true ..).mp hrun
  have hreach : ChainReach 3 1 (fun _ _ => True) x := Reach.of_foldlM .init (by simp) hx
  have hgroup := of_decide_eq_true hgroup
  exact ⟨x, hreach, hgroup, ((pagedRecovery_iff hreach (.regtest 1) (fun _ _ => ()) hgroup).2
    2).mpr (by decide)⟩

/-- Whether the code threw `std::runtime_error`. -/
def isRefused {α : Type} : Except RecoveryError α → Bool
  | .error (.runtimeError _) => true
  | _ => false

/-- The first of two blocks has a coin of the group, but a page from it is refused; and with
one block only, the hash of no block is accepted. -/
theorem pagedRecovery_refuses_firstBlock :
    ((twoBlocks.foldlM chainStep ({ maxCoinInGroup := 3, startGroupSize := 1 }, [])).any
      fun x => isRefused (getCoinsForRecovery (fun _ _ => ()) x.1 x.2 2 1 0 1 1)) = true ∧
    (((twoBlocks.take 1).foldlM chainStep ({ maxCoinInGroup := 3, startGroupSize := 1 }, [])).any
      fun x => decide (getCoinsForRecovery (fun _ _ => ()) x.1 x.2 1 1 0 1 99 =
        .ok [(1, ())])) = true := by
  decide +kernel

end Firo.Spark
