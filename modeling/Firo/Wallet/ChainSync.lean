import Firo.Spark.Tags
import Firo.Wallet.MintLookup

/-! `ConnectTip` and `AcceptToMemoryPool` post the wallet's updates to a worker, which runs them
later and one after the other; `DisconnectTip` rolls the wallet back at once. -/
namespace Firo.Wallet

open Firo.Lib Firo.Spark

/-- What `identify` and `recover` tell about a coin of the wallet. -/
structure RecoveredCoin (Tag K : Type) where
  T : Tag
  i : ℕ
  k : K

/-- The exceptions of `identify`: the wallet catches a `runtime_error` for each coin, and no
other exception. -/
inductive RecoverFailure where
  | runtimeError
  | otherException
deriving DecidableEq, Repr

/-- The code that the wallet calls outside the modelled files. A coin is identified under the
serial context of its transaction. -/
structure WalletEnv (Coin Tag Context K Hash : Type) where
  getSerialContext : CTransaction → Context
  recover : Coin × Context → Except RecoverFailure (RecoveredCoin Tag K)
  getLTagHash : Tag → Hash
  hashes : MintHashes (Coin × Context) K Hash

/-- The tasks of the worker: `UpdateSpendStateFromMempool`, `UpdateSpendStateFromBlock`,
`UpdateMintStateFromMempool` and `UpdateMintStateFromBlock`. -/
inductive Task (Coin Tag Context : Type) where
  | spendFromMempool (lTags : List Tag) (txHash : Uint256)
  | spendFromBlock (block : CBlock)
  | mintFromMempool (coins : List (Coin × Context)) (txHash : Uint256)
  | mintFromBlock (block : CBlock)

/-- A node with its transaction pools, its Spark wallet and the tasks that are not run yet. -/
structure WalletNode (Coin Tag Proof Context K Hash : Type) [Ord Hash] [Std.TransOrd Hash] where
  node : Node Coin Tag Proof
  mempool : List CTransaction := []
  stemTxPool : List CTransaction := []
  sparkWallet : CSparkWallet (Coin × Context) K Hash := {}
  tasks : List (Task Coin Tag Context) := []

variable {Coin Tag Proof Context K Hash : Type} [DecidableEq Coin] [DecidableEq Tag]
  [Ord Hash] [Std.TransOrd Hash] [Std.LawfulEqOrd Hash] [DecidableEq Hash] [DecidableEq K]
  (env : SparkEnv Coin Tag Proof) (wallet : WalletEnv Coin Tag Context K Hash)
  (cp : ConsensusParams)

def WalletEnv.key (wallet : WalletEnv Coin Tag Context K Hash) (coin : Coin × Context) :
    Option Hash :=
  (wallet.recover coin).toOption.map fun data => wallet.getLTagHash data.T

def WalletEnv.raises (wallet : WalletEnv Coin Tag Context K Hash) (coin : Coin × Context) : Bool :=
  match wallet.recover coin with
  | .error .otherException => true
  | _ => false

def getSparkMintCoins (tx : CTransaction) : List (Coin × Context) :=
  if tx.isSparkTransaction then
    tx.vout.filterMap fun out =>
      if out.scriptPubKey.isSparkMint || out.scriptPubKey.isSparkSMint then
        (env.parseSparkMintCoin out.scriptPubKey).map fun coin =>
          (coin, wallet.getSerialContext tx)
      else none
  else []

def blockMintCoins (block : CBlock) : List (Coin × Context) :=
  block.vtx.flatMap (getSparkMintCoins env wallet)

def updateSpendState (w : CSparkWallet (Coin × Context) K Hash) (lTag : Tag) :
    CSparkWallet (Coin × Context) K Hash :=
  match w.coinMeta[wallet.getLTagHash lTag]? with
  | some mintMeta =>
    w.addOrUpdateMint wallet.hashes { mintMeta with isUsed := true } (wallet.getLTagHash lTag)
  | none => w

/-- `UpdateMintState`. An exception that is not caught ends the task. -/
def updateMintState (s : CSparkState Coin Tag) (mempoolHasLTag : Tag → Bool) :
    List (Coin × Context) → CSparkWallet (Coin × Context) K Hash →
      CSparkWallet (Coin × Context) K Hash
  | [], w => w
  | coin :: coins, w =>
    match wallet.recover coin with
    | .ok data =>
      let mintedCoinHeightAndId := s.getMintedCoinHeightAndId coin.1
      updateMintState s mempoolHasLTag coins (w.addOrUpdateMint wallet.hashes
        { nHeight := mintedCoinHeightAndId.1
          nId := mintedCoinHeightAndId.2
          isUsed := mempoolHasLTag data.T
          i := data.i
          k := data.k
          coin } (wallet.getLTagHash data.T))
    | .error .runtimeError => updateMintState s mempoolHasLTag coins w
    | .error .otherException => w

def poolHasLTag (pool : List CTransaction) (lTag : Tag) : Bool :=
  pool.any fun tx => (getSparkUsedTags env tx).contains lTag

def poolHasMint (pool : List CTransaction) (coin : Coin) : Bool :=
  pool.any fun tx => (getSparkMintCoins env wallet tx).any fun minted =>
    env.coinHash minted.1 == env.coinHash coin

namespace WalletNode

variable (s : WalletNode Coin Tag Proof Context K Hash)

def existsTx (txHash : Uint256) : Bool :=
  (s.mempool ++ s.stemTxPool).any fun tx => env.getHash tx == txHash

def containsBlock (block : CBlock) : Bool :=
  s.node.chain.any fun index => index.hash == block.hash

def runTask : Task Coin Tag Context → CSparkWallet (Coin × Context) K Hash
  | .spendFromMempool lTags txHash =>
    if s.existsTx env txHash then lTags.foldl (updateSpendState wallet) s.sparkWallet
    else s.sparkWallet
  | .spendFromBlock block =>
    if s.containsBlock block then
      (block.usedTags env).foldl (updateSpendState wallet) s.sparkWallet
    else s.sparkWallet
  | .mintFromMempool coins txHash =>
    if s.existsTx env txHash then
      updateMintState wallet s.node.sparkState (poolHasLTag env s.mempool) coins s.sparkWallet
    else s.sparkWallet
  | .mintFromBlock block =>
    if s.containsBlock block then
      updateMintState wallet s.node.sparkState (poolHasLTag env s.mempool)
        (blockMintCoins env wallet block) s.sparkWallet
    else s.sparkWallet

def removeFromPools (removed : CTransaction → Bool) : WalletNode Coin Tag Proof Context K Hash :=
  { s with
    mempool := s.mempool.filter fun tx => !removed tx
    stemTxPool := s.stemTxPool.filter fun tx => !removed tx }

def poolConflict (pool : List CTransaction) (tx : CTransaction) : Bool :=
  let coins := getSparkMintCoins env wallet tx
  (tx.isSparkSpend && (decide (1 < tx.vin.length) || (getSparkUsedTags env tx).any fun lTag =>
      s.node.sparkState.isUsedLTag lTag || poolHasLTag env pool lTag)) ||
    !decide (coins.map fun coin => env.coinHash coin.1).Nodup ||
    coins.any fun coin =>
      (s.node.sparkState.mintedCoins coin.1).isSome || poolHasMint env wallet pool coin.1

def poolTasks (tx : CTransaction) : List (Task Coin Tag Context) :=
  (if tx.isSparkSpend then
      [.spendFromMempool (getSparkUsedTags env tx) (env.getHash tx)] else []) ++
    (if tx.isSparkTransaction then
      [.mintFromMempool (getSparkMintCoins env wallet tx) (env.getHash tx)] else [])

/-- `AcceptToMemoryPool` for the mempool or the stem pool; `passes` is the verdict of the checks
that are not about Spark. -/
def acceptToMemoryPool (stem : Bool) (tx : CTransaction) (isCheckWallet passes : Bool) :
    Option (Bool × WalletNode Coin Tag Proof Context K Hash) :=
  if s.poolConflict env wallet (if stem then s.stemTxPool else s.mempool) tx then some (false, s)
  else match checkTransaction env cp (s.node.view false) tx (env.getHash tx) false INT_MAX
      isCheckWallet true ⟨none, s.node.checkedSpends, s.node.batch⟩ with
    | .ok _ ctx =>
      let s := { s with node := s.node.withCaches ctx.checkedSpends ctx.batch }
      if passes then some (true, { s with
        mempool := if stem then s.mempool else tx :: s.mempool
        stemTxPool := if stem then tx :: s.stemTxPool else s.stemTxPool
        tasks := s.tasks ++ poolTasks env wallet tx })
      else some (false, s)
    | .error .abort _ => none
    | .error _ ctx => some (false, { s with node := s.node.withCaches ctx.checkedSpends ctx.batch })

/-- The transactions that a block takes out of the pools: its own, and those that use one of its
linking tags or mint one of its coins. -/
def removedByBlock (block : CBlock) (tx : CTransaction) : Bool :=
  (block.vtx.any fun tx' => env.getHash tx' == env.getHash tx) ||
    ((getSparkUsedTags env tx).any fun lTag => (block.usedTags env).contains lTag) ||
    (getSparkMintCoins env wallet tx).any fun coin =>
      (blockMintCoins env wallet block).any fun coin' => coin'.1 == coin.1

/-- The updates that are posted for a connected block, by the Spark data that `ConnectBlock` has
found in it. -/
def blockTasks (index : CBlockIndex Coin Tag) : List (Task Coin Tag Context) :=
  (if index.spentLTags.isEmpty then [] else [.spendFromBlock index.block]) ++
    (if index.sparkMintedCoins.isEmpty then [] else [.mintFromBlock index.block])

/-- `ConnectTip`; a block that is rejected changes nothing but the node. -/
def connectTip (block : CBlock) (other : OtherChecks) :
    Option (WalletNode Coin Tag Proof Context K Hash) := do
  let node ← s.node.connectTip env cp block other
  if node.chain.length = s.node.chain.length then some { s with node }
  else
    let s := { s with node }.removeFromPools (removedByBlock env wallet block)
    some { s with tasks := s.tasks ++ node.chain.head?.elim [] blockTasks }

/-- How the transactions of a disconnected block fare: whether the stem pool and the mempool take
them back as far as the checks that are not about Spark are concerned, and what is thrown out of
the pools meanwhile. With `fBare` nothing is taken back. -/
structure Resurrection where
  fBare : Bool
  passesStem : CTransaction → Bool
  passesMempool : CTransaction → Bool
  removed : CTransaction → Bool

def resurrect (r : Resurrection) (s : WalletNode Coin Tag Proof Context K Hash)
    (tx : CTransaction) : Option (WalletNode Coin Tag Proof Context K Hash) :=
  if tx.isCoinBase then
    some (s.removeFromPools fun tx' => env.getHash tx' == env.getHash tx)
  else do
    let (_, s) ← s.acceptToMemoryPool env wallet cp true tx false (r.passesStem tx)
    let (accepted, s) ← s.acceptToMemoryPool env wallet cp false tx false (r.passesMempool tx)
    some (if accepted then s
      else s.removeFromPools fun tx' => env.getHash tx' == env.getHash tx)

/-- The rollback of the wallet for a transaction that is in no pool. -/
def rollBack (s : WalletNode Coin Tag Proof Context K Hash) (tx : CTransaction) :
    Option (WalletNode Coin Tag Proof Context K Hash) :=
  if !tx.isSparkTransaction || s.existsTx env (env.getHash tx) then some s
  else
    let lTagHashes := (getSparkUsedTags env tx).map wallet.getLTagHash
    let coins := getSparkMintCoins env wallet tx
    if coins.any wallet.raises then none
    else
      let w := s.sparkWallet.removeSparkSpends wallet.hashes lTagHashes
      some { s with sparkWallet := w.removeSparkMints wallet.hashes wallet.key coins }

/-- The transactions of a disconnected block are taken back. The chain keeps the block
meanwhile. -/
def takeBack (r : Resurrection) (node : Node Coin Tag Proof) (block : CBlock) :
    Option (WalletNode Coin Tag Proof Context K Hash) :=
  if r.fBare then some { s with node }
  else do
    let s' ← block.vtx.foldlM (resurrect env wallet cp r)
      { s with node := { node with chain := s.node.chain } }
    let s' := { s' with node := { s'.node with chain := node.chain } }
    some (s'.removeFromPools r.removed)

def disconnectTip (batching : Bool) (r : Resurrection) :
    Option (WalletNode Coin Tag Proof Context K Hash) := do
  let index ← s.node.chain.head?
  let node ← s.node.disconnectTip env batching
  let s ← s.takeBack env wallet cp r node index.block
  index.block.vtx.foldlM (rollBack env wallet) s

/-- What may happen next: the calls of the node, transactions that leave the pools, and the
worker that runs the first task. -/
inductive Event where
  | connectTip (block : CBlock) (other : OtherChecks)
  | disconnectTip (batching : Bool) (r : Resurrection)
  | acceptToMemoryPool (stem : Bool) (tx : CTransaction) (isCheckWallet passes : Bool)
  | removeFromPools (removed : CTransaction → Bool)
  | runTask

def step : Event → Option (WalletNode Coin Tag Proof Context K Hash)
  | .connectTip block other => s.connectTip env wallet cp block other
  | .disconnectTip batching r => s.disconnectTip env wallet cp batching r
  | .acceptToMemoryPool stem tx isCheckWallet passes =>
    (s.acceptToMemoryPool env wallet cp stem tx isCheckWallet passes).map Prod.snd
  | .removeFromPools removed => some (s.removeFromPools removed)
  | .runTask =>
    match s.tasks with
    | [] => none
    | task :: tasks => some { s with sparkWallet := s.runTask env wallet task, tasks }

def initial (maxCoinInGroup startGroupSize : ℕ) : WalletNode Coin Tag Proof Context K Hash where
  node := Node.initial maxCoinInGroup startGroupSize

end WalletNode

end Firo.Wallet
