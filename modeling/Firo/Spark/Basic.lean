import Mathlib

/-! The parts of `primitives/transaction.h`, `script/script.cpp`, `consensus/params.h` and `chain.h`
that the Spark code reads. -/
namespace Firo.Spark

abbrev Uint256 := BitVec 256

def INT_MAX : Int := 2 ^ 31 - 1

def int32 (n : Int) : Int := Int.bmod n (2 ^ 32)

def uint32 (n : Int) : Nat := (n % 2 ^ 32).toNat

def uint64 (n : Int) : Nat := (n % 2 ^ 64).toNat

lemma int32_eq (n : Int) : int32 n = (n + 2 ^ 31) % 2 ^ 32 - 2 ^ 31 := by
  unfold int32
  rw [Int.bmod_def]
  split <;> omega

lemma int32_of_lt {n : Int} (hlow : -2 ^ 31 ≤ n) (hhigh : n < 2 ^ 31) : int32 n = n := by
  rw [int32_eq]
  omega

lemma int32_int32_sub (a b : Int) : int32 (int32 a - b) = int32 (a - b) := by
  simp only [int32_eq]
  omega

lemma uint32_of_lt {n : Int} (hlow : 0 ≤ n) (hhigh : n < 2 ^ 32) : (uint32 n : Int) = n := by
  unfold uint32
  omega

def COIN : Int := 100000000
def MAX_MONEY : Int := 21000000 * COIN

def moneyRange (nValue : Int) : Bool :=
  decide (0 ≤ nValue) && decide (nValue ≤ MAX_MONEY)

abbrev CScript := List UInt8

def OP_ZEROCOINSPEND : UInt8 := 0xc2
def OP_SIGMAMINT : UInt8 := 0xc3
def OP_LELANTUSMINT : UInt8 := 0xc5
def OP_LELANTUSJMINT : UInt8 := 0xc6
def OP_LELANTUSJOINSPLIT : UInt8 := 0xc7
def OP_ZEROCOINTOSIGMAREMINT : UInt8 := 0xc8
def OP_LELANTUSJOINSPLITPAYLOAD : UInt8 := 0xc9
def OP_SPARKMINT : UInt8 := 0xd1
def OP_SPARKSMINT : UInt8 := 0xd2
def OP_SPARKSPEND : UInt8 := 0xd3

namespace CScript

def startsWith (op : UInt8) (s : CScript) : Bool :=
  s.head? == some op

def isSigmaMint (s : CScript) : Bool := startsWith OP_SIGMAMINT s
def isLelantusMint (s : CScript) : Bool := startsWith OP_LELANTUSMINT s
def isLelantusJMint (s : CScript) : Bool := startsWith OP_LELANTUSJMINT s
def isSparkMint (s : CScript) : Bool := startsWith OP_SPARKMINT s
def isSparkSMint (s : CScript) : Bool := startsWith OP_SPARKSMINT s
def isSparkSpend (s : CScript) : Bool := startsWith OP_SPARKSPEND s

lemma isSparkMint_isSparkSMint {s : CScript} (h : isSparkMint s = true) :
    isSparkSMint s = false := by
  simp only [isSparkMint, startsWith, beq_iff_eq] at h
  simp [isSparkSMint, startsWith, h, OP_SPARKMINT, OP_SPARKSMINT]

end CScript

structure COutPoint where
  hash : Uint256
  n : Nat
deriving DecidableEq, Repr

def COutPoint.isNull (o : COutPoint) : Bool :=
  o.hash == 0 && o.n == 2 ^ 32 - 1

structure CTxIn where
  prevout : COutPoint
  scriptSig : CScript
  nSequence : Nat
deriving DecidableEq, Repr

structure CTxOut where
  nValue : Int
  scriptPubKey : CScript
deriving DecidableEq, Repr

def TRANSACTION_NORMAL : Nat := 0
def TRANSACTION_PROVIDER_REGISTER : Nat := 1
def TRANSACTION_PROVIDER_UPDATE_SERVICE : Nat := 2
def TRANSACTION_PROVIDER_UPDATE_REGISTRAR : Nat := 3
def TRANSACTION_PROVIDER_UPDATE_REVOKE : Nat := 4
def TRANSACTION_COINBASE : Nat := 5
def TRANSACTION_QUORUM_COMMITMENT : Nat := 6
def TRANSACTION_SPORK : Nat := 7
def TRANSACTION_LELANTUS : Nat := 8
def TRANSACTION_SPARK : Nat := 9
def TRANSACTION_SPARK_V2 : Nat := 11

structure CTransaction where
  nVersion : Int
  nType : Nat
  vin : List CTxIn
  vout : List CTxOut
  nLockTime : Nat
  vExtraPayload : List UInt8
deriving DecidableEq, Repr

namespace CTransaction

variable (tx : CTransaction)

def isSparkSpendV1 : Bool :=
  decide (3 ≤ tx.nVersion) && tx.nType == TRANSACTION_SPARK

def isSparkSpendV2 : Bool :=
  decide (3 ≤ tx.nVersion) && tx.nType == TRANSACTION_SPARK_V2

def isSparkSpend : Bool :=
  tx.isSparkSpendV1 || tx.isSparkSpendV2

def isSparkMint (tx : CTransaction) : Bool :=
  tx.vout.any fun o => o.scriptPubKey.isSparkMint

def isSparkTransaction : Bool :=
  tx.isSparkMint || tx.isSparkSpend

/-- The private spends keep a null outpoint in their only input, so the leading
opcode tells them from a coinbase. -/
def isCoinBase : Bool :=
  match tx.vin with
  | [i] => i.prevout.isNull && match i.scriptSig with
    | [] => true
    | op :: _ => op != OP_ZEROCOINSPEND && op != OP_ZEROCOINTOSIGMAREMINT &&
        op != OP_LELANTUSJOINSPLIT && op != OP_LELANTUSJOINSPLITPAYLOAD &&
        op != OP_SPARKSPEND
  | _ => false

end CTransaction

structure CBlock where
  hash : Uint256
  hashPrevBlock : Uint256
  vtx : List CTransaction
deriving DecidableEq, Repr

def HF_ZNODE_HEIGHT : Int := 66550

/-- The fields of `Consensus::Params` that the Spark code reads, and the genesis block,
which has no Spark transactions. On the main network Spark starts after the height from
which a block may not repeat a transaction. -/
structure ConsensusParams where
  isMain : Bool
  genesis : CBlock
  DIP0003Height : Int
  nEvoSporkStartBlock : Int
  nEvoSporkStopBlock : Int
  nSparkStartBlock : Int
  nSparkSingleInputStartBlock : Int
  nSparkChaumV2StartBlock : Int
  nMaxSparkOutLimitPerTx : Nat
  nMaxValueSparkSpendPerTransaction : Int
  nMaxValueSparkSpendPerBlock : Int
  nSparkLimitV2StartBlock : Int
  nSparkLimitV2Factor : Int
  nSparkNamesStartBlock : Int
  nSparkNamesV2StartBlock : Int
  nSparkNamesV21StartBlock : Int
  nSparkNamesFee : List Int
  stage3DevelopmentFundAddress : String
  stage3CommunityFundAddress : String
  stage41StartBlockDevFundAddressChange : Int
  stage41SparkNamesGracefulPeriod : Int
  main_start : isMain = true → HF_ZNODE_HEIGHT ≤ nSparkStartBlock
  graceful_nonneg : 0 ≤ stage41SparkNamesGracefulPeriod
  genesis_noSpark : ∀ tx ∈ genesis.vtx, tx.isSparkTransaction = false

namespace ConsensusParams

def hashGenesisBlock (cp : ConsensusParams) : Uint256 := cp.genesis.hash

def getMaxValueSparkSpendPerTransaction (cp : ConsensusParams) (nHeight : Int) : Int :=
  if cp.nSparkLimitV2StartBlock ≤ nHeight then
    cp.nMaxValueSparkSpendPerTransaction * cp.nSparkLimitV2Factor
  else cp.nMaxValueSparkSpendPerTransaction

def getMaxValueSparkSpendPerBlock (cp : ConsensusParams) (nHeight : Int) : Int :=
  if cp.nSparkLimitV2StartBlock ≤ nHeight then
    cp.nMaxValueSparkSpendPerBlock * cp.nSparkLimitV2Factor
  else cp.nMaxValueSparkSpendPerBlock

/-- The parameters of the regression test network, with Spark active from the first
block behind the genesis block and with a choice of the height from which spends have
the second version. -/
def regtest (nSparkChaumV2StartBlock : Int) : ConsensusParams where
  isMain := false
  genesis := ⟨0, 0, []⟩
  DIP0003Height := 1
  nEvoSporkStartBlock := 550
  nEvoSporkStopBlock := 950
  nSparkStartBlock := 1
  nSparkSingleInputStartBlock := nSparkChaumV2StartBlock
  nSparkChaumV2StartBlock := nSparkChaumV2StartBlock
  nMaxSparkOutLimitPerTx := 16
  nMaxValueSparkSpendPerTransaction := 1000 * COIN
  nMaxValueSparkSpendPerBlock := 1500 * COIN
  nSparkLimitV2StartBlock := 1500
  nSparkLimitV2Factor := 3
  nSparkNamesStartBlock := 2000
  nSparkNamesV2StartBlock := 2500
  nSparkNamesV21StartBlock := 2700
  nSparkNamesFee := [-1, 1000, 100, 10, 10, 10] ++ List.replicate 15 1
  stage3DevelopmentFundAddress := "TGEGf26GwyUBE2P2o2beBAfE9Y438dCp5t"
  stage3CommunityFundAddress := "TJmPzeJF4DECrBwUftc265U7rTPxKmpa4F"
  stage41StartBlockDevFundAddressChange := 2600
  stage41SparkNamesGracefulPeriod := 100
  main_start := by simp
  graceful_nonneg := by decide
  genesis_noSpark := by simp

end ConsensusParams

def REJECT_MALFORMED : Nat := 0x01
def REJECT_INVALID : Nat := 0x10
def REJECT_NONSTANDARD : Nat := 0x40
def PUBCOIN_NOT_VALIDATE : Nat := 0x46
def NSEQUENCE_INCORRECT : Nat := 0x47
def NO_MINT_ZEROCOIN : Nat := 0x49

/-- What a failed check leaves in `CValidationState`: a verdict of `DoS` or of
`Error`, or nothing when the check only returns false. `abort` is a failed assertion
or a null dereference, which ends the node. -/
inductive Reject where
  | dos (nDoS code : Nat) (reason : String)
  | error (reason : String)
  | failed
  | abort
deriving DecidableEq, Repr

def Reject.dosError (nDoS : Nat) (_message : String) : Reject := .dos nDoS 0 ""

/-- A second call of `DoS` on a state that already holds a verdict. -/
def Reject.dosAgain (nDoS code : Nat) (reason : String) : Reject → Reject
  | .dos n _ _ => .dos (n + nDoS) code reason
  | .error _ => .error reason
  | .failed => .dos nDoS code reason
  | .abort => .abort

structure CSparkNameBlockIndexData where
  name : String
  sparkAddress : String
  sparkNameValidityHeight : Nat
  additionalInfo : String
deriving DecidableEq, Repr

/-- `CBlockIndex`, restricted to its Spark data, with the block that it points to
on disk. A `std::map` is an ordered map; `spentLTags` is an unordered map, kept as
the list of its entries. -/
structure CBlockIndex (Coin Tag : Type) where
  block : CBlock
  nHeight : Int
  sparkMintedCoins : Std.ExtTreeMap Int (List Coin) := ∅
  sparkSetHash : Std.ExtTreeMap Int (List UInt8) := ∅
  spentLTags : List (Tag × Int) := []
  addedSparkNames : Std.ExtTreeMap String CSparkNameBlockIndexData := ∅
  removedSparkNames : Std.ExtTreeMap String CSparkNameBlockIndexData := ∅

/-- A `CBlockIndex*` is the hash of the block, `none` the null pointer. -/
abbrev BlockPtr := Option Uint256

variable {Coin Tag : Type}

def CBlockIndex.hash (b : CBlockIndex Coin Tag) : Uint256 := b.block.hash

end Firo.Spark
