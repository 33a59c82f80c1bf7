import Firo.Lib.Loop
import Firo.Miner.BlackList
import Firo.Serialize

/-! The selection of transactions in `miner.cpp`: by priority with `addPriorityTxs`, then by the fee
rate with ancestors with `addPackageTxs`. -/
namespace Firo.Miner

open Firo.Lib Firo.Spark

def MAX_BLOCK_WEIGHT : Nat := 2000000
def MAX_BLOCK_SERIALIZED_SIZE : Nat := 2000000
def MAX_BLOCK_SIGOPS_COST : Nat := 400000
def DEFAULT_BLOCK_MAX_WEIGHT : Nat := 3000000
def DEFAULT_BLOCK_MAX_SIZE : Nat := 2000000
def LOCKTIME_THRESHOLD : Nat := 500000000
def SEQUENCE_FINAL : Nat := 0xffffffff
def MAX_CONSECUTIVE_FAILURES : Nat := 1000

/-- The options of the node: `-blockmaxweight`, `-blockmaxsize`, `-blockmintxfee` in satoshis per
kilobyte and `-blockprioritysize`. -/
structure MinerArgs where
  blockmaxweight : Option Int
  blockmaxsize : Option Int
  blockmintxfee : Int
  blockprioritysize : Int

structure Limits where
  nBlockMaxWeight : Nat
  nBlockMaxSize : Nat
deriving DecidableEq, Repr

def MinerArgs.limits (args : MinerArgs) : Limits :=
  let nBlockMaxSize := match args.blockmaxsize with
    | some size => uint32 size
    | none => if args.blockmaxweight.isSome then MAX_BLOCK_SERIALIZED_SIZE
        else DEFAULT_BLOCK_MAX_SIZE
  let nBlockMaxWeight := match args.blockmaxweight, args.blockmaxsize with
    | some weight, _ => uint32 weight
    | none, some _ => uint32 (nBlockMaxSize * WITNESS_SCALE_FACTOR)
    | none, none => DEFAULT_BLOCK_MAX_WEIGHT
  { nBlockMaxWeight := max 4000 (min (MAX_BLOCK_WEIGHT - 4000) nBlockMaxWeight)
    nBlockMaxSize := max 1000 (min (MAX_BLOCK_SERIALIZED_SIZE - 1000) nBlockMaxSize) }

def Limits.fNeedSizeAccounting (limits : Limits) : Bool :=
  decide (limits.nBlockMaxSize < MAX_BLOCK_SERIALIZED_SIZE - 1000)

/-- What the assembler reads: the options, the height and the time for lock times, whether
witnesses are allowed, the transactions that the chain locks allow, and the product of an amount
and a size in floating-point numbers. -/
structure MinerContext where
  cp : ConsensusParams
  args : MinerArgs
  nHeight : Int
  nLockTimeCutoff : Int
  fIncludeWitness : Bool
  isTxSafeForMining : Uint256 → Bool
  mulDouble : Int → Nat → Int

/-- The state of `BlockAssembler`, without the coinbase. `vtx` has the entries whose
transactions are in the block. -/
structure BlockAssembler where
  vtx : List CTxMemPoolEntry := []
  vTxFees : List Int := []
  vTxSigOpsCost : List Nat := []
  nBlockWeight : Nat := 4000
  nBlockSize : Nat := 1000
  nBlockTx : Nat := 0
  nBlockSigOpsCost : Nat := 100
  nFees : Int := 0
  inBlock : SetEntries := ∅
  lastFewTxs : Nat := 0
  blockFinished : Bool := false
  nSparkSpendAmount : Int := 0
  fNeedSizeAccounting : Bool

def isFinalTx (tx : CTransaction) (nBlockHeight nBlockTime : Int) : Bool :=
  tx.nLockTime == 0 || decide ((tx.nLockTime : Int) <
      if tx.nLockTime < LOCKTIME_THRESHOLD then nBlockHeight else nBlockTime) ||
    tx.vin.all fun txin => txin.nSequence == SEQUENCE_FINAL

def isSparkSpendFormatAllowed (cp : ConsensusParams) (tx : CTransaction) (height : Int) : Bool :=
  if !tx.isSparkSpend then true
  else if tx.isSparkSpendV2 then decide (cp.nSparkChaumV2StartBlock ≤ height)
  else if height < min cp.nSparkSingleInputStartBlock cp.nSparkChaumV2StartBlock then true
  else match Serialize.readCompactSize true tx.vExtraPayload with
    | some (size, _) => size == 1
    | none => false

def getFee (nSatoshisPerK : Int) (nSize : Nat) : Int :=
  let nFee := (nSatoshisPerK * nSize).tdiv 1000
  if nFee = 0 ∧ nSize ≠ 0 then
    if 0 < nSatoshisPerK then 1 else if nSatoshisPerK < 0 then -1 else nFee
  else nFee

section

variable (pool : CTxMemPool) (ctx : MinerContext)

namespace BlockAssembler

variable (a : BlockAssembler)

def testPackage (packageSize packageSigOpsCost : Nat) : Bool :=
  decide (a.nBlockWeight + WITNESS_SCALE_FACTOR * packageSize < ctx.args.limits.nBlockMaxWeight) &&
    decide (a.nBlockSigOpsCost + packageSigOpsCost < MAX_BLOCK_SIGOPS_COST)

/-- The tests of one transaction of a package; the size is the one of the block so far. -/
def testPackageTransaction (nPotentialBlockSize : Nat) (it : CTxMemPoolEntry) : Option Nat :=
  if !isSparkSpendFormatAllowed ctx.cp it.tx ctx.nHeight ||
      !isFinalTx it.tx ctx.nHeight ctx.nLockTimeCutoff || !ctx.isTxSafeForMining it.hash ||
      (!ctx.fIncludeWitness && it.hasWitness) then none
  else if a.fNeedSizeAccounting then
    if ctx.args.limits.nBlockMaxSize ≤ nPotentialBlockSize + it.serializeSize then none
    else some (nPotentialBlockSize + it.serializeSize)
  else some nPotentialBlockSize

def testPackageTransactions (package : SetEntries) : Bool :=
  ((pool.inOrder package).foldlM (a.testPackageTransaction ctx) a.nBlockSize).isSome

def sparkSpendFits (tx : CTransaction) : Bool :=
  !tx.isSparkSpend || (decide (getSpendTransparentAmount tx ≤
        ctx.cp.getMaxValueSparkSpendPerTransaction ctx.nHeight) &&
      decide (getSpendTransparentAmount tx + a.nSparkSpendAmount ≤
        ctx.cp.getMaxValueSparkSpendPerBlock ctx.nHeight))

/-- A transaction that does not fit: the block is finished when it is almost full, or after
many such transactions. -/
def tooLarge (almostFull nearFull : Bool) : BlockAssembler :=
  if almostFull || decide (50 < a.lastFewTxs) then { a with blockFinished := true }
  else if nearFull then { a with lastFewTxs := a.lastFewTxs + 1 } else a

variable (iter : CTxMemPoolEntry)

def testForBlock : Bool × BlockAssembler :=
  let limits := ctx.args.limits
  if !isSparkSpendFormatAllowed ctx.cp iter.tx ctx.nHeight then (false, a)
  else if limits.nBlockMaxWeight ≤ a.nBlockWeight + iter.nTxWeight then
    (false, a.tooLarge (decide (limits.nBlockMaxWeight - 400 < a.nBlockWeight))
      (decide (limits.nBlockMaxWeight - 4000 < a.nBlockWeight)))
  else if a.fNeedSizeAccounting && decide (limits.nBlockMaxSize ≤
      a.nBlockSize + iter.serializeSize) then
    (false, a.tooLarge (decide (limits.nBlockMaxSize - 100 < a.nBlockSize))
      (decide (limits.nBlockMaxSize - 1000 < a.nBlockSize)))
  else if MAX_BLOCK_SIGOPS_COST ≤ a.nBlockSigOpsCost + iter.sigOpCost then
    (false, if MAX_BLOCK_SIGOPS_COST - 8 < a.nBlockSigOpsCost then
      { a with blockFinished := true } else a)
  else (isFinalTx iter.tx ctx.nHeight ctx.nLockTimeCutoff && a.sparkSpendFits ctx iter.tx, a)

def push : BlockAssembler :=
  { a with
    vtx := a.vtx ++ [iter]
    vTxFees := a.vTxFees ++ [iter.nFee]
    vTxSigOpsCost := a.vTxSigOpsCost ++ [iter.sigOpCost]
    nBlockSize := if a.fNeedSizeAccounting then a.nBlockSize + iter.serializeSize else a.nBlockSize
    nBlockWeight := a.nBlockWeight + iter.nTxWeight
    nBlockTx := a.nBlockTx + 1
    nBlockSigOpsCost := a.nBlockSigOpsCost + iter.sigOpCost
    nFees := a.nFees + iter.nFee
    inBlock := insert iter a.inBlock }

/-- A Spark spend over a limit is skipped; one over the limit of the block counts all the
same. -/
def addToBlock : BlockAssembler :=
  if iter.tx.isSparkSpend then
    let spendAmount := getSpendTransparentAmount iter.tx
    if ctx.cp.getMaxValueSparkSpendPerTransaction ctx.nHeight < spendAmount then a
    else
      let a := { a with nSparkSpendAmount := a.nSparkSpendAmount + spendAmount }
      if ctx.cp.getMaxValueSparkSpendPerBlock ctx.nHeight < a.nSparkSpendAmount then a
      else a.push iter
  else a.push iter

def isStillDependent : Bool :=
  (pool.inOrder (pool.getMemPoolParents iter)).any fun parent => decide (parent ∉ a.inBlock)

end BlockAssembler

def compareByScore (a b : CTxMemPoolEntry) : Bool :=
  let f1 := ctx.mulDouble a.getModifiedFee (pool.getTxSize b)
  let f2 := ctx.mulDouble b.getModifiedFee (pool.getTxSize a)
  if f1 = f2 then decide (b.hash.toNat < a.hash.toNat) else decide (f2 < f1)

abbrev TxCoinAgePriority := ℚ × CTxMemPoolEntry

def comparePriority (a b : TxCoinAgePriority) : Bool :=
  if a.1 = b.1 then compareByScore pool ctx b.2 a.2 else decide (a.1 < b.1)

def allowFree (dPriority : ℚ) : Bool :=
  decide (((COIN * 576 / 250 : Int) : ℚ) < dPriority)

structure PriorityState where
  assembler : BlockAssembler
  vecPriority : List TxCoinAgePriority
  waitPriMap : List TxCoinAgePriority

def PriorityState.wake (st : PriorityState) (iter : CTxMemPoolEntry) : PriorityState :=
  let isChild := fun waiting : TxCoinAgePriority =>
    decide (waiting.2 ∈ pool.getMemPoolChildren iter)
  { st with
    vecPriority := st.vecPriority ++ st.waitPriMap.filter isChild
    waitPriMap := st.waitPriMap.filter fun waiting => !isChild waiting }

def PriorityState.consider (nBlockPrioritySize : Nat) (st : PriorityState)
    (top : TxCoinAgePriority) : Round PriorityState :=
  let iter := top.2
  let st := { st with vecPriority := st.vecPriority.erase top }
  if iter ∈ st.assembler.inBlock then .abort
  else if !ctx.fIncludeWitness && iter.hasWitness then .more st
  else if st.assembler.isStillDependent pool iter then
    .more { st with waitPriMap := top :: st.waitPriMap }
  else
    let (fits, assembler) := st.assembler.testForBlock ctx iter
    if fits then
      let st := { st with assembler := assembler.addToBlock ctx iter }
      if (decide (nBlockPrioritySize ≤ st.assembler.nBlockSize) || !allowFree top.1) &&
          !isZerocoinRemint iter.tx then .stop st
      else .more (st.wake pool iter)
    else .more { st with assembler }

def PriorityState.round (nBlockPrioritySize : Nat) (st : PriorityState) : Round PriorityState :=
  if st.assembler.blockFinished then .stop st
  else match bestBy (fun a b => comparePriority pool ctx b a) st.vecPriority with
    | none => .stop st
    | some top => st.consider pool ctx nBlockPrioritySize top

variable (txBlackList : SetEntries)

def initialPriorities : List TxCoinAgePriority :=
  (pool.mapTx.filter (· ∉ txBlackList)).map fun mi => (pool.priorityDelta mi.hash, mi)

def PriorityState.start (a : BlockAssembler) : PriorityState where
  assembler := { a with fNeedSizeAccounting := true }
  vecPriority := initialPriorities pool txBlackList
  waitPriMap := []

def addPriorityTxs (a : BlockAssembler) : Option BlockAssembler := do
  let nBlockPrioritySize := min ctx.args.limits.nBlockMaxSize (uint32 ctx.args.blockprioritysize)
  if nBlockPrioritySize = 0 then return a
  let st ← loop (PriorityState.round pool ctx nBlockPrioritySize)
    ((pool.mapTx.length + 1) * (pool.mapTx.length + 1)) (PriorityState.start pool txBlackList a)
  return { st.assembler with fNeedSizeAccounting := a.fNeedSizeAccounting }

structure CTxMemPoolModifiedEntry where
  iter : CTxMemPoolEntry
  nSizeWithAncestors : Nat
  nModFeesWithAncestors : Int
  nSigOpCostWithAncestors : Nat
deriving DecidableEq

def CTxMemPoolModifiedEntry.ofEntry (entry : CTxMemPoolEntry) : CTxMemPoolModifiedEntry where
  iter := entry
  nSizeWithAncestors := entry.nSizeWithAncestors
  nModFeesWithAncestors := entry.nModFeesWithAncestors
  nSigOpCostWithAncestors := entry.nSigOpCostWithAncestors

def CTxMemPoolModifiedEntry.without (e : CTxMemPoolModifiedEntry) (it : CTxMemPoolEntry)
    (fee : Int) : CTxMemPoolModifiedEntry :=
  { e with
    nSizeWithAncestors := e.nSizeWithAncestors - pool.getTxSize it
    nModFeesWithAncestors := e.nModFeesWithAncestors - fee
    nSigOpCostWithAncestors := e.nSigOpCostWithAncestors - it.sigOpCost }

/-- `CompareModifiedEntry`, and with the state of the mempool
`CompareTxMemPoolEntryByAncestorFee`. -/
def compareModifiedEntry (a b : CTxMemPoolModifiedEntry) : Bool :=
  let f1 := ctx.mulDouble a.nModFeesWithAncestors b.nSizeWithAncestors
  let f2 := ctx.mulDouble b.nModFeesWithAncestors a.nSizeWithAncestors
  if f1 = f2 then decide (a.iter.hash.toNat < b.iter.hash.toNat) else decide (f2 < f1)

def ancestorScore : List CTxMemPoolEntry :=
  pool.mapTx.insertionSort fun a b => ¬ compareModifiedEntry ctx (.ofEntry b) (.ofEntry a) = true

/-- The entry of a descendant when `it` joined the block. A new one takes off the modified fee,
one that is there already the plain fee. -/
def updateModified (it : CTxMemPoolEntry) (mapModifiedTx : List CTxMemPoolModifiedEntry)
    (desc : CTxMemPoolEntry) : List CTxMemPoolModifiedEntry :=
  if mapModifiedTx.any (fun m => m.iter == desc) then
    mapModifiedTx.map fun m => if m.iter = desc then m.without pool it it.nFee else m
  else (CTxMemPoolModifiedEntry.ofEntry desc).without pool it it.getModifiedFee :: mapModifiedTx

def openDescendants (alreadyAdded : SetEntries) (it : CTxMemPoolEntry) : List CTxMemPoolEntry :=
  (pool.inOrder (pool.calculateDescendants it ∅)).filter fun desc =>
    decide (desc ∉ alreadyAdded) && decide (desc ∉ txBlackList)

def updateForAdded (alreadyAdded : SetEntries) (mapModifiedTx : List CTxMemPoolModifiedEntry)
    (it : CTxMemPoolEntry) : List CTxMemPoolModifiedEntry :=
  if isSigmaSpend it.tx then mapModifiedTx
  else (openDescendants pool txBlackList alreadyAdded it).foldl (updateModified pool it)
    mapModifiedTx

def updatePackagesForAdded (alreadyAdded : SetEntries)
    (mapModifiedTx : List CTxMemPoolModifiedEntry) : List CTxMemPoolModifiedEntry :=
  (pool.inOrder alreadyAdded).foldl (updateForAdded pool txBlackList alreadyAdded) mapModifiedTx

/-- The loop of `addPackageTxs`; `mi` has the entries that the iterator has not passed. -/
structure PackageState where
  assembler : BlockAssembler
  mi : List CTxMemPoolEntry
  mapModifiedTx : List CTxMemPoolModifiedEntry
  failedTx : SetEntries
  nConsecutiveFailed : Nat

variable (st : PackageState)

/-- An entry of `mapModifiedTx` that failed is taken out, so that the next best comes. -/
def PackageState.fail (fUsingModified : Bool) (iter : CTxMemPoolEntry) : PackageState :=
  if fUsingModified then
    { st with
      mapModifiedTx := st.mapModifiedTx.filter fun m => m.iter ≠ iter
      failedTx := insert iter st.failedTx }
  else st

/-- `CompareTxIterByAncestorCount`: `b` is not before `a`. -/
def compareByAncestorCount (a b : CTxMemPoolEntry) : Bool :=
  decide (a.nCountWithAncestors < b.nCountWithAncestors) ||
    (a.nCountWithAncestors == b.nCountWithAncestors && decide (a.hash.toNat ≤ b.hash.toNat))

def sortForBlock (package : SetEntries) : List CTxMemPoolEntry :=
  (pool.inOrder package).insertionSort fun a b => compareByAncestorCount a b = true

def PackageState.add (ancestors : SetEntries) : PackageState :=
  { st with
    assembler := (sortForBlock pool ancestors).foldl (fun a e => a.addToBlock ctx e) st.assembler
    mapModifiedTx := updatePackagesForAdded pool txBlackList ancestors
      (st.mapModifiedTx.filter fun m => m.iter ∉ sortForBlock pool ancestors)
    nConsecutiveFailed := 0 }

def PackageState.consider (fUsingModified : Bool)
    (m : CTxMemPoolModifiedEntry) : Round PackageState :=
  let iter := m.iter
  if iter ∈ st.assembler.inBlock then .abort
  else if m.nModFeesWithAncestors < getFee ctx.args.blockmintxfee m.nSizeWithAncestors then .stop st
  else if !st.assembler.testPackage ctx m.nSizeWithAncestors m.nSigOpCostWithAncestors then
    let st := { st.fail fUsingModified iter with
      nConsecutiveFailed := st.nConsecutiveFailed + 1 }
    if MAX_CONSECUTIVE_FAILURES < st.nConsecutiveFailed ∧
        ctx.args.limits.nBlockMaxWeight - 4000 < st.assembler.nBlockWeight then .stop st
    else .more st
  else
    let ancestors := insert iter
      ((pool.calculateMemPoolAncestors iter).filter (· ∉ st.assembler.inBlock))
    if !st.assembler.testPackageTransactions pool ctx ancestors then
      .more (st.fail fUsingModified iter)
    else .more (st.add pool ctx txBlackList ancestors)

def PackageState.skipMapTxEntry (it : CTxMemPoolEntry) : Bool :=
  st.mapModifiedTx.any (fun m => m.iter == it) || decide (it ∈ st.assembler.inBlock) ||
    decide (it ∈ st.failedTx) || decide (it ∈ txBlackList)

/-- A round: skip an entry of the index, or take the better one of the next entry of the index
and the best modified entry. -/
def PackageState.round : Round PackageState :=
  let modit := bestBy (compareModifiedEntry ctx) st.mapModifiedTx
  match st.mi, modit with
  | [], none => .stop st
  | [], some m => st.consider pool ctx txBlackList true m
  | iter :: rest, modit =>
    if st.skipMapTxEntry txBlackList iter then .more { st with mi := rest }
    else match modit with
      | some m =>
        if compareModifiedEntry ctx m (.ofEntry iter) then st.consider pool ctx txBlackList true m
        else PackageState.consider pool ctx txBlackList { st with mi := rest } false (.ofEntry iter)
      | none =>
        PackageState.consider pool ctx txBlackList { st with mi := rest } false (.ofEntry iter)

/-- The descendants of the transactions in the block are modified from the start. -/
def PackageState.start (a : BlockAssembler) : PackageState where
  assembler := a
  mi := ancestorScore pool ctx
  mapModifiedTx := updatePackagesForAdded pool txBlackList a.inBlock []
  failedTx := ∅
  nConsecutiveFailed := 0

def addPackageTxs (a : BlockAssembler) : Option BlockAssembler := do
  let st ← loop (PackageState.round pool ctx txBlackList)
    ((pool.mapTx.length + 1) * (2 * pool.mapTx.length + 1))
    (PackageState.start pool ctx txBlackList a)
  return st.assembler

variable (env : PayloadEnv) (prevSporkMap : ActiveSporkMap)

/-- The selection of `CreateNewBlock`, for a block with quorum commitments of the given
sizes. -/
def createNewBlock (commitmentSizes : List Nat) : Option BlockAssembler := do
  let txBlackList :=
    pool.fillBlackListForBlockTemplate env ctx.cp prevSporkMap ctx.nHeight
  let a : BlockAssembler :=
    { nBlockSize := 1000 + commitmentSizes.sum
      nBlockTx := commitmentSizes.length
      fNeedSizeAccounting := ctx.args.limits.fNeedSizeAccounting }
  let a ← addPriorityTxs pool ctx txBlackList a
  addPackageTxs pool ctx txBlackList a

end

end Firo.Miner
