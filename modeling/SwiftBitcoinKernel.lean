import SwiftBitcoinKernel.Logic.EarlyExit
import SwiftBitcoinKernel.Sync.Update
import SwiftBitcoinKernel.Sync.Loop
import SwiftBitcoinKernel.Sync.Protocol
import SwiftBitcoinKernel.Sync.Completion
import SwiftBitcoinKernel.Kernel.Chainman
import SwiftBitcoinKernel.Kernel.BestHeader
import SwiftBitcoinKernel.Kernel.Settled
import SwiftBitcoinKernel.Sync.Chainstate
import SwiftBitcoinKernel.Sync.Honest
import SwiftBitcoinKernel.Sync.HonestKernel
import SwiftBitcoinKernel.Logic.Transition
import SwiftBitcoinKernel.Sync.Teardown
import SwiftBitcoinKernel.Daemon.Bridge
import SwiftBitcoinKernel.Daemon.Lifecycle
import SwiftBitcoinKernel.Daemon.Restart
import SwiftBitcoinKernel.Daemon.Coherence
import SwiftBitcoinKernel.Daemon.Waiting
import SwiftBitcoinKernel.Sync.EsploraAPI
import SwiftBitcoinKernel.Logic.Throwing
import SwiftBitcoinKernel.Logic.Percent
import SwiftBitcoinKernel.Sync.Esplora
import SwiftBitcoinKernel.Sync.Cancellation
import SwiftBitcoinKernel.Kernel.Interrupt
import SwiftBitcoinKernel.Sync.Stream
import SwiftBitcoinKernel.Sync.Delivery
import SwiftBitcoinKernel.Rpc.Server
import SwiftBitcoinKernel.Rpc.Client
import SwiftBitcoinKernel.Rpc.Agreement
import SwiftBitcoinKernel.Rpc.Wallet
import SwiftBitcoinKernel.Rpc.EntryPoints
import SwiftBitcoinKernel.Rpc.VoidCalls
import SwiftBitcoinKernel.Config.Settings
import SwiftBitcoinKernel.Config.Builder
import SwiftBitcoinKernel.Logic.Rules
import SwiftBitcoinKernel.Config.Validation
import SwiftBitcoinKernel.Config.Soundness
import SwiftBitcoinKernel.Logic.Paths
import SwiftBitcoinKernel.Config.Endpoint
import SwiftBitcoinKernel.Logic.Base64
import SwiftBitcoinKernel.Rpc.Auth
import SwiftBitcoinKernel.Logic.Trapping
import SwiftBitcoinKernel.Rpc.Direct
import SwiftBitcoinKernel.Sync.Retry
import SwiftBitcoinKernel.Sync.BestTip
import SwiftBitcoinKernel.Sync.EsploraGrammar
import SwiftBitcoinKernel.Logic.HalfAway
import SwiftBitcoinKernel.Models.BTCAmount
import SwiftBitcoinKernel.Sync.ProgressReport
import SwiftBitcoinKernel.Logic.Json
import SwiftBitcoinKernel.Rpc.Arguments
import SwiftBitcoinKernel.Rpc.Reader
import SwiftBitcoinKernel.Rpc.ReaderComplete
import SwiftBitcoinKernel.Rpc.Dispatch
import SwiftBitcoinKernel.Logic.Splitting
import SwiftBitcoinKernel.Rpc.Credentials
import SwiftBitcoinKernel.Sync.HashCodec
import SwiftBitcoinKernel.Logic.Spacing
import SwiftBitcoinKernel.Sync.Pacing
import SwiftBitcoinKernel.Daemon.Poll
import SwiftBitcoinKernel.Logic.Codec
import SwiftBitcoinKernel.Kernel.Serialize
import SwiftBitcoinKernel.Kernel.Bytes
import SwiftBitcoinKernel.Logic.WriteBack
import SwiftBitcoinKernel.Kernel.Coins
import SwiftBitcoinKernel.Logic.Relating
import SwiftBitcoinKernel.Kernel.ConnectBlock
import SwiftBitcoinKernel.Kernel.DisconnectBlock
import SwiftBitcoinKernel.Kernel.Undo
import SwiftBitcoinKernel.Kernel.Verdict
import SwiftBitcoinKernel.Logic.Writes
import SwiftBitcoinKernel.Kernel.Replay
import SwiftBitcoinKernel.Logic.Ancestry
import SwiftBitcoinKernel.Kernel.Chain
import SwiftBitcoinKernel.Kernel.CoinsDB
import SwiftBitcoinKernel.Kernel.BlockTree
import SwiftBitcoinKernel.Kernel.Chainstate
import SwiftBitcoinKernel.Kernel.CrashSafety
