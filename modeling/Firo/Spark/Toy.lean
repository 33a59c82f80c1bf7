import Firo.Spark.Step

/-! An instance of the code outside the model on which runs can be evaluated. A coin is its type,
its linking tag and its value, and the proof of a spend is the coin that it spends. -/
namespace Firo.Spark.Toy

structure Coin where
  type : UInt8
  tag : UInt8
  value : UInt8
deriving DecidableEq, Repr

def parseCoin : CScript → Option Coin
  | [_, type, tag, value] => some ⟨type, tag, value⟩
  | _ => none

def serializeCoin (coin : Coin) : List UInt8 := [coin.type, coin.tag, coin.value]

/-- The payload of a spend: group, reference block, fee and coin; name data may follow. -/
def deserializeSpend (version : SpendTransactionVersion) (outputCount : Nat) :
    List UInt8 → Option (SpendTransaction Coin UInt8 Coin)
  | id :: hash :: f :: type :: tag :: value :: _ => some
    { version
      expectedOutputCount := outputCount
      coverSetIds := [id.toUInt64]
      setIdBlockHash := (∅ : Std.ExtTreeMap UInt64 Uint256).insert id.toUInt64
        (BitVec.ofNat 256 hash.toNat)
      f := f.toUInt64
      T := [tag]
      proof := ⟨type, tag, value⟩ }
  | _ => none

/-- The coin is in its cover set, has the tag, and pays for outputs and fee. -/
def verify (sp : SpendTransaction Coin UInt8 Coin) (cover : UInt64 → Option (List Coin)) : Bool :=
  sp.T == [sp.proof.tag] &&
  (sp.coverSetIds.all fun id => (cover id).any fun coins => coins.contains sp.proof) &&
  sp.proof.value.toNat ==
    (sp.outCoins.map fun coin => coin.value.toNat).sum + sp.f.toNat + sp.vout.toNat

def text (c : UInt8) : String := String.ofList [Char.ofNat c.toNat]

/-- Name data: operation, name, address, old address, validity and the expiration height
that a transfer commits to. -/
def nameData (operationType name sparkAddress oldSparkAddress validity height : UInt8) :
    CSparkNameTxData where
  nVersion := 2
  inputsHash := BitVec.ofNat 256 height.toNat
  name := text name
  sparkAddress := text sparkAddress
  addressOwnershipProof := []
  sparkNameValidityBlocks := validity.toNat
  additionalInfo := ""
  hashFailsafe := 0
  operationType
  oldSparkAddress := text oldSparkAddress
  transferOwnershipProof := []

def parseSparkNameTxData (tx : CTransaction) (_ : Bool) : NamePayload :=
  match tx.vExtraPayload.drop 6 with
  | [] => .absent
  | [operationType, name, sparkAddress, oldSparkAddress, validity, height] =>
    .data (nameData operationType name sparkAddress oldSparkAddress validity height) 6
  | _ => .malformed

def names : NameEnv where
  parseSparkNameTxData
  isSparkNameFee script := script.head? == some 0xe1
  extractSparkNameFromScript
    | [_, name, sparkAddress] => some (text name, text sparkAddress)
    | _ => none
  getBaseScriptFromSparkNameFee _ := [0]
  getScriptForAddress _ := [0]
  transactionDigest _ _ _ := 0
  deserializeOwnershipProof proof := some (proof, true)
  getSparkNameOwnershipMessage hash _ := some hash.toNat
  decodeAddress address := some (address.toList.map fun c => UInt8.ofNat c.toNat)
  verifyOwn _ _ _ := true
  hashExpirationHeight height := BitVec.ofNat 256 height
  hashSparkNameData d := d.inputsHash
  hashTransferProof _ _ hash := hash

def env : SparkEnv Coin UInt8 Coin where
  getHash tx := BitVec.ofNat 256 tx.nLockTime
  hash256 bytes := (List.range 32).map fun i => (bytes.map (· * UInt8.ofNat (i + 1))).sum
  deserializeSpend
  parseSparkMintTransaction scripts := (scripts.mapM parseCoin).map fun coins => ⟨coins, .ok true⟩
  parseSparkMintCoin := parseCoin
  serializeCoin
  coinHash coin := BitVec.ofNat 256
    (coin.type.toNat * 2 ^ 16 + coin.tag.toNat * 2 ^ 8 + coin.value.toNat)
  coinValue coin := coin.value.toUInt64
  verify
  verifyHistorical := verify
  names

def mintTx (number : Nat) (coins : List (UInt8 × UInt8)) : CTransaction where
  nVersion := 2
  nType := TRANSACTION_NORMAL
  vin := [⟨⟨1, 0⟩, [], 0⟩]
  vout := coins.map fun coin => ⟨coin.2.toNat, [OP_SPARKMINT, COIN_TYPE_MINT, coin.1, coin.2]⟩
  nLockTime := number
  vExtraPayload := []

/-- A transaction of the second version that spends to the given outputs. -/
def spendTx (number : Nat) (payload : List UInt8) (vout : List CTxOut) : CTransaction where
  nVersion := 3
  nType := TRANSACTION_SPARK_V2
  vin := [⟨⟨0, 2 ^ 32 - 1⟩, [OP_SPARKSPEND], 0⟩]
  vout
  nLockTime := number
  vExtraPayload := payload

/-- Spend the coin with the tag 7 from a group, with the block `reference` as the newest of
its cover set, to a new coin with the tag `change`. -/
def spendSeven (number : Nat) (group reference change : UInt8) : CTransaction :=
  spendTx number [group, reference, 1, 0, 7, 50] [⟨40, [0]⟩, ⟨0, [OP_SPARKSMINT, 1, change, 9]⟩]

def nameTx (number : Nat) (operationType name sparkAddress oldSparkAddress validity
    height : UInt8) : CTransaction :=
  spendTx number [1, 1, 1, 0, 7, 50, operationType, name, sparkAddress, oldSparkAddress,
    validity, height] [⟨0, [0xe1, name, sparkAddress]⟩]

/-- The block at a height of a chain without forks; the height is also its hash. -/
def block (n : Nat) (vtx : List CTransaction) : CBlock :=
  ⟨BitVec.ofNat 256 n, BitVec.ofNat 256 (n - 1), vtx⟩

def connect (n : Nat) (vtx : List CTransaction) : Action Coin UInt8 :=
  .connectTip (block n vtx) {}

/-- All of Spark is active behind the genesis block, but for the second version of
spends, and names are free. -/
def params (nSparkChaumV2StartBlock : Int) : ConsensusParams :=
  { ConsensusParams.regtest nSparkChaumV2StartBlock with
    nSparkNamesStartBlock := 1
    nSparkNamesV2StartBlock := 1
    nSparkNamesV21StartBlock := 1
    nSparkNamesFee := []
    stage41StartBlockDevFundAddressChange := 1
    stage41SparkNamesGracefulPeriod := 0
    graceful_nonneg := le_rfl }

end Firo.Spark.Toy
