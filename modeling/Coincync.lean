import Coincync.Consensus.Malleability
import Coincync.Chain.ProofOfWork
import Coincync.Chain.Targets
import Coincync.Consensus.Balance
import Coincync.Chain.Steady
import Coincync.Mining.Selection
import Coincync.Chain.SoftFinality
import Coincync.Frost.Session
import Coincync.Network.SyncBans
import Coincync.Storage.Spark
import Coincync.Swap.Protocol
import Coincync.AuxPow.OneChild
import Coincync.Network.HeaderBatch
import Coincync.Network.Locator
import Coincync.Swap.Agreement
import Coincync.Network.Downloads
import Coincync.Network.HeaderRequests
import Coincync.Network.Orphans
import Coincync.Network.ConnectionTracker
import Coincync.Crypto.CutThrough
import Coincync.Wallet.Vesting
import Coincync.Mempool.Eviction
import Coincync.Mining.ClaimedFees
import Coincync.Faucet.RateLimit
import Coincync.Wallet.Spendable
import Coincync.Consensus.AsertMonotone
import Coincync.Consensus.AsertGate
import Coincync.Storage.PrefixScan
import Coincync.Network.MemoryBudget
import Coincync.Wallet.Multisig
import Coincync.Wallet.NearestLocator
import Coincync.Storage.Snapshot
