import Firo.Lib.Registry
import Firo.Lib.Run
import Firo.Lib.SecondaryIndex
import Firo.Spark.Basic

/-! `CSparkWallet` of `spark/sparkwallet.cpp` keeps the wallet's mints by the hash of their linking
tag, and two indexes by coin hash and by nonce hash. An unordered map is iterated in an order that
is given with the call. -/
namespace Firo.Wallet

open Firo.Lib Firo.Spark

structure CSparkMintMeta (Coin K : Type) where
  nHeight : ℤ
  nId : ℤ
  isUsed : Bool
  i : ℕ
  k : K
  coin : Coin
deriving DecidableEq

/-- `primitives::GetSparkCoinHash`, `primitives::GetNonceHash`, and whether a coin is
`spark::Coin()`. -/
structure MintHashes (Coin K Hash : Type) where
  getSparkCoinHash : Coin → Hash
  getNonceHash : K → Hash
  isNull : Coin → Bool

structure CSparkWallet (Coin K Hash : Type) [Ord Hash] [Std.TransOrd Hash] where
  lastDiversifier : ℤ := 0
  coinMeta : Std.ExtTreeMap Hash (CSparkMintMeta Coin K) := ∅
  coinLookup : Std.ExtTreeMap Hash Hash := ∅
  nonceLookup : Std.ExtTreeMap Hash Hash := ∅

variable {Coin K Hash : Type} [Ord Hash] [Std.TransOrd Hash] [Std.LawfulEqOrd Hash]
  [DecidableEq Hash] [DecidableEq K] (hashes : MintHashes Coin K Hash)

def dropOwned (index : Std.ExtTreeMap Hash Hash) (key owner : Hash) : Std.ExtTreeMap Hash Hash :=
  if index[key]? = some owner then index.erase key else index

namespace CSparkWallet

variable (w : CSparkWallet Coin K Hash)

def addToLookups (lTagHash : Hash) (mint : CSparkMintMeta Coin K) : CSparkWallet Coin K Hash :=
  { w with
    coinLookup := if hashes.isNull mint.coin then w.coinLookup
      else w.coinLookup.insert (hashes.getSparkCoinHash mint.coin) lTagHash
    nonceLookup := w.nonceLookup.insert (hashes.getNonceHash mint.k) lTagHash }

def removeFromLookups (lTagHash : Hash) (mint : CSparkMintMeta Coin K) : CSparkWallet Coin K Hash :=
  { w with
    coinLookup := if hashes.isNull mint.coin then w.coinLookup
      else dropOwned w.coinLookup (hashes.getSparkCoinHash mint.coin) lTagHash
    nonceLookup := dropOwned w.nonceLookup (hashes.getNonceHash mint.k) lTagHash }

def eraseMint (hash : Hash) : CSparkWallet Coin K Hash :=
  match w.coinMeta[hash]? with
  | some mint =>
    let w := w.removeFromLookups hashes hash mint
    { w with coinMeta := w.coinMeta.erase hash }
  | none => w

variable (mint : CSparkMintMeta Coin K)

/-- The lines that `addOrUpdateMint` and `updateMintInMemory` share: replace the mint at a
hash. -/
def storeMint (lTagHash : Hash) : CSparkWallet Coin K Hash :=
  let w := match w.coinMeta[lTagHash]? with
    | some old => w.removeFromLookups hashes lTagHash old
    | none => w
  { w with coinMeta := w.coinMeta.insert lTagHash mint }.addToLookups hashes lTagHash mint

def addOrUpdateMint (lTagHash : Hash) : CSparkWallet Coin K Hash :=
  { w.storeMint hashes mint lTagHash with
    lastDiversifier :=
      if w.lastDiversifier < mint.i then int32 mint.i else w.lastDiversifier }

def sameMint (hash : Hash) : Bool :=
  (w.coinMeta[hash]?).any fun stored => stored.k = mint.k

def updateMint (order : List Hash) : CSparkWallet Coin K Hash :=
  order.foldl (fun w hash =>
    if w.sameMint mint hash then w.addOrUpdateMint hashes mint hash else w) w

def updateMintInMemory (w : CSparkWallet Coin K Hash) (mint : CSparkMintMeta Coin K) :
    List Hash → CSparkWallet Coin K Hash
  | [] => w
  | hash :: order =>
    if w.sameMint mint hash then w.storeMint hashes mint hash
    else w.updateMintInMemory mint order

/-- `recover` gives the hash of the linking tag, if the coin is one of the wallet. -/
def removeSparkMints (recover : Coin → Option Hash) (w : CSparkWallet Coin K Hash)
    (mints : List Coin) : CSparkWallet Coin K Hash :=
  mints.foldl (fun w coin =>
    match recover coin with
    | some lTagHash => w.eraseMint hashes lTagHash
    | none => w) w

def removeSparkSpends (lTagHashes : List Hash) : CSparkWallet Coin K Hash :=
  lTagHashes.foldl (fun w lTagHash =>
    match w.coinMeta[lTagHash]? with
    | some mintMeta => w.addOrUpdateMint hashes { mintMeta with isUsed := false } lTagHash
    | none => w) w

def validateLookupIndexes : Bool :=
  (w.coinLookup.toList.all fun entry => (w.coinMeta[entry.2]?).any fun mint =>
      hashes.getSparkCoinHash mint.coin = entry.1) &&
    (w.nonceLookup.toList.all fun entry => (w.coinMeta[entry.2]?).any fun mint =>
      hashes.getNonceHash mint.k = entry.1) &&
    w.coinMeta.toList.all fun entry =>
      (hashes.isNull entry.2.coin ||
        w.coinLookup.contains (hashes.getSparkCoinHash entry.2.coin)) &&
      w.nonceLookup.contains (hashes.getNonceHash entry.2.k)

end CSparkWallet

end Firo.Wallet
