import Firo.Spark.RollBack
import Firo.Spark.Restart
import Firo.Spark.NameLifetime
import Firo.Spark.NameAddress
import Firo.Spark.BatchRun
import Firo.Llmq.DkgBatch
import Firo.Bip47.AddressWindow
import Firo.Bls.BatchVerifier
import Firo.Llmq.ChainLocks
import Firo.Llmq.Minable
import Firo.Llmq.MinedView
import Firo.LibSpark.GrootleComplete
import Firo.LibSpark.BPPlusComplete
import Firo.Llmq.SigShareRun
import Firo.Llmq.QuorumConnections
import Firo.Llmq.InputRequests
import Firo.Index.TotalSupply
import Firo.LibSpark.ChaumProofs
import Firo.LibSpark.MintTransaction
import Firo.LibSpark.Ownership
import Firo.LibSpark.ChaumContext
import Firo.Secp256k1.GroupElement
import Firo.LibSpark.AddressRoundTrip
import Firo.Spark.MempoolState
import Firo.Spark.Recovery
import Firo.Wallet.CoverSets
import Firo.Wallet.ChainSyncRun
import Firo.Wallet.CoinSelection
import Firo.Miner.SafeTxs
import Firo.Evo.SimplifiedMNs
import Firo.Evo.Payments
import Firo.UnorderedLruCache
import Firo.Wallet.BatchPlan
