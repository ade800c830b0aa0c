/-
  File:      SwiftBitcoinKernel/Config/Builder.lean
  Subject:   `BitcoinConfig`, the fluent builder of Core's arguments (Config/BitcoinConfig*.swift).

  * `Network`, `ConfigFlag`, `BoolOption`, `UIntOption`, `IntOption`, `TextOption`, `ConfigCall` -- the
    networks, the flags and the typed calls, each option under the name of its method. A call that is
    offered on one network only may be made on all of them, and a text is any bytes: the sequences
    of calls are those of the source and more;
  * `BitcoinConfig`, `apply`, `build` -- a configuration, what a call makes of it, and all of them;
  * `apply_eq`, `build_args`, `mem_build_flags`, `build_dataDirectory`, `build_rpcPortOverride` --
    what a call appends and records, and so a sequence of them;
  * `OptionName.key_injective` -- no two options share a key; `parseArguments_build`,
    `getSetting_callSettings` -- so what Core reads from the arguments is, option by option, what
    the last call gave it.
-/
import Mathlib.Data.Finset.Insert
import Mathlib.Order.Basic
import SwiftBitcoinKernel.Logic.Rules
import SwiftBitcoinKernel.Config.Settings

namespace SwiftBitcoinKernel

open Logic

/-! ## 1. The options -/

/-- The networks; `BitcoinNetwork`. -/
inductive Network where
  | mainnet | testnet | testnet4 | regtest | signet
  deriving DecidableEq

/-- `BitcoinNetwork.flag`, without its dash. -/
def Network.flag : Network → Option String
  | .mainnet => none
  | .testnet => some "testnet"
  | .testnet4 => some "testnet4"
  | .regtest => some "regtest"
  | .signet => some "signet"

/-- `ConfigFlags`. -/
inductive ConfigFlag where
  | txIndex | pruneSize | coinStatsIndex | server | rpcBind | rpcAllowIP | rpcAuth | blocksOnly
  | maxMempool | disableWallet | walletOption | connect | peerBlockFilters | blockFilterIndexAll
  | listen | maxUploadTarget | rpcCookieFile
  deriving DecidableEq

/-- When a method records a flag: never, if its option is turned on, or on every call. -/
inductive FlagRule where
  | never
  | whenOn (flag : ConfigFlag)
  | always (flag : ConfigFlag)
  deriving DecidableEq

/-- The flag recorded. -/
def FlagRule.flag (isOn : Bool) : FlagRule → Option ConfigFlag
  | .never => none
  | .whenOn flag => if isOn then some flag else none
  | .always flag => some flag

/-- The methods that take a `Bool`. -/
inductive BoolOption where
  | server | daemon | daemonWait | txIndex | coinStatsIndex | txoSpenderIndex | blocksOnly
  | persistMempool | rpcWhitelistDefault | discover | dns | dnsSeed | listen | listenOnion
  | networkActive | peerBlockFilters | proxyRandomize | privateBroadcast | peerBloomFilters
  | disableWallet | walletBroadcast | walletRbf | spendZeroConfChange | avoidPartialSpends
  | dataCarrier | acceptNonStdTxn | whitelistRelay | whitelistForceRelay | permitBareMultisig
  | logIPs | logTimestamps | logThreadNames | logSourceLocations | printToConsole
  | shrinkDebugFile | fastPrune | acceptStaleFeeEstimates
  deriving DecidableEq

/-- The key each of them appends. -/
def BoolOption.key : BoolOption → String
  | .server => "server"
  | .daemon => "daemon"
  | .daemonWait => "daemonwait"
  | .txIndex => "txindex"
  | .coinStatsIndex => "coinstatsindex"
  | .txoSpenderIndex => "txospenderindex"
  | .blocksOnly => "blocksonly"
  | .persistMempool => "persistmempool"
  | .rpcWhitelistDefault => "rpcwhitelistdefault"
  | .discover => "discover"
  | .dns => "dns"
  | .dnsSeed => "dnsseed"
  | .listen => "listen"
  | .listenOnion => "listenonion"
  | .networkActive => "networkactive"
  | .peerBlockFilters => "peerblockfilters"
  | .proxyRandomize => "proxyrandomize"
  | .privateBroadcast => "privatebroadcast"
  | .peerBloomFilters => "peerbloomfilters"
  | .disableWallet => "disablewallet"
  | .walletBroadcast => "walletbroadcast"
  | .walletRbf => "walletrbf"
  | .spendZeroConfChange => "spendzeroconfchange"
  | .avoidPartialSpends => "avoidpartialspends"
  | .dataCarrier => "datacarrier"
  | .acceptNonStdTxn => "acceptnonstdtxn"
  | .whitelistRelay => "whitelistrelay"
  | .whitelistForceRelay => "whitelistforcerelay"
  | .permitBareMultisig => "permitbaremultisig"
  | .logIPs => "logips"
  | .logTimestamps => "logtimestamps"
  | .logThreadNames => "logthreadnames"
  | .logSourceLocations => "logsourcelocations"
  | .printToConsole => "printtoconsole"
  | .shrinkDebugFile => "shrinkdebugfile"
  | .fastPrune => "fastprune"
  | .acceptStaleFeeEstimates => "acceptstalefeeestimates"

/-- The flag each of them records. -/
def BoolOption.rule : BoolOption → FlagRule
  | .server => .whenOn .server
  | .txIndex => .whenOn .txIndex
  | .coinStatsIndex => .whenOn .coinStatsIndex
  | .blocksOnly => .whenOn .blocksOnly
  | .listen => .whenOn .listen
  | .peerBlockFilters => .whenOn .peerBlockFilters
  | .disableWallet => .whenOn .disableWallet
  | .walletBroadcast | .walletRbf | .spendZeroConfChange | .avoidPartialSpends =>
    .always .walletOption
  | _ => .never

/-- The methods that take a `UInt`. -/
inductive UIntOption where
  | dbCache | maxMempool | mempoolExpiry | rpcThreads | rpcWorkQueue | rpcSerialVersion
  | banTime | maxConnections | maxReceiveBuffer | maxSendBuffer | maxUploadTarget | timeout
  | keypool | txConfirmTarget | dataCarrierSize | bytesPerSigOp | limitAncestorCount
  | limitDescendantCount | checkBlocks | checkLevel | mockTime | stopAtHeight | maxSigCacheSize
  | blockMaxWeight | blockMaxSize | zmqPubRawBlockHwm | zmqPubRawTxHwm | zmqPubHashBlockHwm
  | zmqPubHashTxHwm | zmqPubSequenceHwm
  deriving DecidableEq

/-- The key each of them appends. -/
def UIntOption.key : UIntOption → String
  | .dbCache => "dbcache"
  | .maxMempool => "maxmempool"
  | .mempoolExpiry => "mempoolexpiry"
  | .rpcThreads => "rpcthreads"
  | .rpcWorkQueue => "rpcworkqueue"
  | .rpcSerialVersion => "rpcserialversion"
  | .banTime => "bantime"
  | .maxConnections => "maxconnections"
  | .maxReceiveBuffer => "maxreceivebuffer"
  | .maxSendBuffer => "maxsendbuffer"
  | .maxUploadTarget => "maxuploadtarget"
  | .timeout => "timeout"
  | .keypool => "keypool"
  | .txConfirmTarget => "txconfirmtarget"
  | .dataCarrierSize => "datacarriersize"
  | .bytesPerSigOp => "bytespersigop"
  | .limitAncestorCount => "limitancestorcount"
  | .limitDescendantCount => "limitdescendantcount"
  | .checkBlocks => "checkblocks"
  | .checkLevel => "checklevel"
  | .mockTime => "mocktime"
  | .stopAtHeight => "stopatheight"
  | .maxSigCacheSize => "maxsigcachesize"
  | .blockMaxWeight => "blockmaxweight"
  | .blockMaxSize => "blockmaxsize"
  | .zmqPubRawBlockHwm => "zmqpubrawblockhwm"
  | .zmqPubRawTxHwm => "zmqpubrawtxhwm"
  | .zmqPubHashBlockHwm => "zmqpubhashblockhwm"
  | .zmqPubHashTxHwm => "zmqpubhashtxhwm"
  | .zmqPubSequenceHwm => "zmqpubsequencehwm"

/-- The bounds each of them holds its argument to. -/
def UIntOption.clamp : UIntOption → Nat → Nat
  | .dbCache, mb => max 4 mb
  | .maxMempool, mb => max 5 mb
  | .mempoolExpiry, hours => max 1 hours
  | .rpcThreads, count => max 1 (min 64 count)
  | .rpcWorkQueue, depth => max 1 (min 1024 depth)
  | .txConfirmTarget, blocks => max 1 blocks
  | .limitAncestorCount, count => max 1 count
  | .limitDescendantCount, count => max 1 count
  | .checkLevel, level => min 4 level
  | .blockMaxWeight, units => min 4000000 units
  | _, value => value

/-- The flag each of them records; an option is on if its argument is not zero. -/
def UIntOption.rule : UIntOption → FlagRule
  | .maxMempool => .always .maxMempool
  | .maxUploadTarget => .whenOn .maxUploadTarget
  | .keypool | .txConfirmTarget => .always .walletOption
  | _ => .never

/-- The methods that take an `Int`. -/
inductive IntOption where
  | par | blockVersion
  deriving DecidableEq

/-- The key each of them appends. -/
def IntOption.key : IntOption → String
  | .par => "par"
  | .blockVersion => "blockversion"

/-- The methods that take a text, or a value that is appended as its text. -/
inductive TextOption where
  | blocksDir | pid | assumeValid | alertNotify | blockNotify | startupNotify | shutdownNotify
  | loadBlock | conf | includeConf | rpcBind | rpcAllowIP | rpcAuth | rpcCookieFile
  | rpcCookiePerms | rpcWhitelist | addNode | bind | connect | externalIP | onion | onlyNet
  | proxy | seedNode | torControl | torPassword | wallet | walletDir | walletNotify
  | addressType | changeType | minTxFee | maxTxFee | fallbackFee | discardFee | minRelayTxFee
  | incrementalRelayFee | dustRelayFee | debug | debugExclude | logLevel | whiteBind
  | testActivationHeight | vbParams | signetChallenge | signetSeedNode | blockMinTxFee
  | zmqPubRawBlock | zmqPubRawTx | zmqPubHashBlock | zmqPubHashTx | zmqPubSequence
  deriving DecidableEq

/-- The key each of them appends. -/
def TextOption.key : TextOption → String
  | .blocksDir => "blocksdir"
  | .pid => "pid"
  | .assumeValid => "assumevalid"
  | .alertNotify => "alertnotify"
  | .blockNotify => "blocknotify"
  | .startupNotify => "startupnotify"
  | .shutdownNotify => "shutdownnotify"
  | .loadBlock => "loadblock"
  | .conf => "conf"
  | .includeConf => "includeconf"
  | .rpcBind => "rpcbind"
  | .rpcAllowIP => "rpcallowip"
  | .rpcAuth => "rpcauth"
  | .rpcCookieFile => "rpccookiefile"
  | .rpcCookiePerms => "rpccookieperms"
  | .rpcWhitelist => "rpcwhitelist"
  | .addNode => "addnode"
  | .bind => "bind"
  | .connect => "connect"
  | .externalIP => "externalip"
  | .onion => "onion"
  | .onlyNet => "onlynet"
  | .proxy => "proxy"
  | .seedNode => "seednode"
  | .torControl => "torcontrol"
  | .torPassword => "torpassword"
  | .wallet => "wallet"
  | .walletDir => "walletdir"
  | .walletNotify => "walletnotify"
  | .addressType => "addresstype"
  | .changeType => "changetype"
  | .minTxFee => "mintxfee"
  | .maxTxFee => "maxtxfee"
  | .fallbackFee => "fallbackfee"
  | .discardFee => "discardfee"
  | .minRelayTxFee => "minrelaytxfee"
  | .incrementalRelayFee => "incrementalrelayfee"
  | .dustRelayFee => "dustrelayfee"
  | .debug => "debug"
  | .debugExclude => "debugexclude"
  | .logLevel => "loglevel"
  | .whiteBind => "whitebind"
  | .testActivationHeight => "testactivationheight"
  | .vbParams => "vbparams"
  | .signetChallenge => "signetchallenge"
  | .signetSeedNode => "signetseednode"
  | .blockMinTxFee => "blockmintxfee"
  | .zmqPubRawBlock => "zmqpubrawblock"
  | .zmqPubRawTx => "zmqpubrawtx"
  | .zmqPubHashBlock => "zmqpubhashblock"
  | .zmqPubHashTx => "zmqpubhashtx"
  | .zmqPubSequence => "zmqpubsequence"

/-- The flag each of them records. -/
def TextOption.rule : TextOption → FlagRule
  | .rpcBind => .always .rpcBind
  | .rpcAllowIP => .always .rpcAllowIP
  | .rpcAuth => .always .rpcAuth
  | .rpcCookieFile => .always .rpcCookieFile
  | .connect => .always .connect
  | .wallet | .walletDir | .walletNotify | .addressType | .changeType | .minTxFee | .maxTxFee
  | .fallbackFee | .discardFee => .always .walletOption
  | _ => .never

/-- `PruneMode`. A size is at least 550, the precondition of `rawValue`, and an `Int`, which the
    conversion there checks. -/
inductive PruneMode where
  | disabled
  | manual
  | size (mb : Nat) (valid : 550 ≤ mb ∧ mb ≤ 9223372036854775807)
  deriving DecidableEq

/-- `PruneMode.rawValue`. -/
def PruneMode.rawValue : PruneMode → Nat
  | .disabled => 0
  | .manual => 1
  | .size mb _ => mb

/-- `BlockFilterMode`. -/
inductive BlockFilterMode where
  | disabled | all | basic
  deriving DecidableEq

/-- `BlockFilterMode.description`. -/
def BlockFilterMode.description : BlockFilterMode → String
  | .disabled => "0"
  | .all => "1"
  | .basic => "basic"

/-! ## 2. The calls -/

/-- A typed call on a configuration. -/
inductive ConfigCall where
  | bool (option : BoolOption) (enabled : Bool)
  | uint (option : UIntOption) (value : UInt64)
  | int (option : IntOption) (value : Int64)
  | text (option : TextOption) (value : Data)
  | dataDir (path : Data)
  | rpcPort (port : UInt16)
  | port (port : UInt16)
  | prune (mode : PruneMode)
  | blockFilterIndex (mode : BlockFilterMode)
  | reindex
  | reindexChainstate
  deriving DecidableEq

/-- `BitcoinConfig`. -/
structure BitcoinConfig where
  network : Network
  args : List Data
  flags : Finset ConfigFlag
  dataDirectory : Option Data
  rpcPortOverride : Option UInt16
  deriving DecidableEq

/-- `"\(bool ? 1 : 0)"`. -/
def boolText (enabled : Bool) : Data := utf8 (if enabled then "1" else "0")

/-- The text of an `Int`. -/
def intText (value : Int64) : Data :=
  if value.toInt < 0 then 45 :: decimal value.toInt.natAbs else decimal value.toInt.natAbs

namespace BitcoinConfig

/-- `BitcoinConfig.init()`: the flag of the network is the first argument. -/
def init (network : Network) : BitcoinConfig where
  network := network
  args := (network.flag.map fun flag => Core.argument (utf8 flag) none).toList
  flags := ∅
  dataDirectory := none
  rpcPortOverride := none

/-- `appending(_:)`; the argument is a key, or a key and its value. -/
def appending (config : BitcoinConfig) (key : String) (value : Option Data) : BitcoinConfig :=
  { config with args := config.args ++ [Core.argument (utf8 key) value] }

/-- `setting(_:)`, if there is a flag to set. -/
def setting (config : BitcoinConfig) : Option ConfigFlag → BitcoinConfig
  | none => config
  | some flag => { config with flags := insert flag config.flags }

/-- What a call makes of a configuration: the body of its method. -/
def apply (config : BitcoinConfig) : ConfigCall → BitcoinConfig
  | .bool option enabled =>
    (config.appending option.key (boolText enabled)).setting (option.rule.flag enabled)
  | .uint option value =>
    (config.appending option.key (decimal (option.clamp value.toNat))).setting
      (option.rule.flag (0 < value))
  | .int option value => config.appending option.key (intText value)
  | .text option value => (config.appending option.key value).setting (option.rule.flag true)
  | .dataDir path => { config.appending "datadir" path with dataDirectory := path }
  | .rpcPort port =>
    { config.appending "rpcport" (decimal port.toNat) with rpcPortOverride := port }
  | .port port => config.appending "port" (decimal port.toNat)
  | .prune mode =>
    let copy := config.appending "prune" (decimal mode.rawValue)
    match mode with
    | .size _ _ => copy.setting (some .pruneSize)
    | _ => copy
  | .blockFilterIndex mode =>
    let copy := config.appending "blockfilterindex" (utf8 mode.description)
    match mode with
    | .all => copy.setting (some .blockFilterIndexAll)
    | _ => copy
  | .reindex => config.appending "reindex" none
  | .reindexChainstate => config.appending "reindex-chainstate" none

/-- The configuration of a network after some calls. -/
def build (network : Network) (calls : List ConfigCall) : BitcoinConfig :=
  calls.foldl apply (init network)

end BitcoinConfig

/-! ## 3. What the calls append and record -/

/-- The option a call is about. -/
inductive OptionName where
  | bool (option : BoolOption)
  | uint (option : UIntOption)
  | int (option : IntOption)
  | text (option : TextOption)
  | dataDir | rpcPort | port | prune | blockFilterIndex | reindex | reindexChainstate
  deriving DecidableEq

/-- Its key. -/
def OptionName.key : OptionName → String
  | .bool option => option.key
  | .uint option => option.key
  | .int option => option.key
  | .text option => option.key
  | .dataDir => "datadir"
  | .rpcPort => "rpcport"
  | .port => "port"
  | .prune => "prune"
  | .blockFilterIndex => "blockfilterindex"
  | .reindex => "reindex"
  | .reindexChainstate => "reindex-chainstate"

namespace ConfigCall

def name : ConfigCall → OptionName
  | .bool option _ => .bool option
  | .uint option _ => .uint option
  | .int option _ => .int option
  | .text option _ => .text option
  | .dataDir _ => .dataDir
  | .rpcPort _ => .rpcPort
  | .port _ => .port
  | .prune _ => .prune
  | .blockFilterIndex _ => .blockFilterIndex
  | .reindex => .reindex
  | .reindexChainstate => .reindexChainstate

/-- The value a call appends. -/
def value : ConfigCall → Option Data
  | .bool _ enabled => boolText enabled
  | .uint option value => decimal (option.clamp value.toNat)
  | .int _ value => intText value
  | .text _ value => value
  | .dataDir path => path
  | .rpcPort number | .port number => decimal number.toNat
  | .prune mode => decimal mode.rawValue
  | .blockFilterIndex mode => utf8 mode.description
  | .reindex | .reindexChainstate => none

/-- The flag a call records. -/
def flag : ConfigCall → Option ConfigFlag
  | .bool option enabled => option.rule.flag enabled
  | .uint option value => option.rule.flag (0 < value)
  | .text option _ => option.rule.flag true
  | .prune (.size _ _) => some .pruneSize
  | .blockFilterIndex .all => some .blockFilterIndexAll
  | _ => none

/-- The data directory a call sets. -/
def directory : ConfigCall → Option Data
  | .dataDir path => some path
  | _ => none

/-- The RPC port a call sets. -/
def portOverride : ConfigCall → Option UInt16
  | .rpcPort number => some number
  | _ => none

end ConfigCall

namespace BitcoinConfig

theorem setting_args (config : BitcoinConfig) (flag : Option ConfigFlag) :
    (config.setting flag).args = config.args := by
  cases flag <;> rfl

theorem mem_setting_flags (config : BitcoinConfig) (flag : Option ConfigFlag) (f : ConfigFlag) :
    f ∈ (config.setting flag).flags ↔ f ∈ config.flags ∨ flag = some f := by
  cases flag with
  | none => simp [setting]
  | some g => simp [setting, eq_comm, or_comm]

/-- **A call appends its option and value, and records its flag, directory and port, and no more.** -/
theorem apply_eq (config : BitcoinConfig) (c : ConfigCall) :
    config.apply c =
      { (config.appending c.name.key c.value).setting c.flag with
        dataDirectory := c.directory.or config.dataDirectory
        rpcPortOverride := c.portOverride.or config.rpcPortOverride } := by
  cases c with
  | bool option enabled =>
    cases h : option.rule.flag enabled <;> simp [apply, ConfigCall.flag, h] <;> rfl
  | uint option value =>
    cases h : option.rule.flag (0 < value) <;> simp [apply, ConfigCall.flag, h] <;> rfl
  | text option value =>
    cases h : option.rule.flag true <;> simp [apply, ConfigCall.flag, h] <;> rfl
  | prune mode => cases mode <;> rfl
  | blockFilterIndex mode => cases mode <;> rfl
  | int | dataDir | rpcPort | port | reindex | reindexChainstate => rfl

end BitcoinConfig

/-- A key as a number, in base 256. -/
def keyNumber (key : Data) : Nat := key.foldl (fun n b => 256 * n + b.toNat) 0

/-- All the options, in the order of their keys' numbers. -/
def OptionName.all : List OptionName :=
  [.bool .dns, .int .par, .text .pid, .text .bind, .text .conf, .port, .text .debug,
   .text .onion, .text .proxy, .prune, .bool .daemon, .bool .listen, .bool .logIPs,
   .bool .server, .text .wallet, .text .addNode, .uint .banTime, .text .connect, .dataDir,
   .uint .dbCache, .bool .dnsSeed, .uint .keypool, .text .onlyNet, .reindex, .text .rpcAuth,
   .text .rpcBind, .rpcPort, .uint .timeout, .bool .txIndex, .bool .discover, .text .logLevel,
   .text .maxTxFee, .text .minTxFee, .uint .mockTime, .text .seedNode, .text .vbParams,
   .text .blocksDir, .bool .fastPrune, .text .loadBlock, .text .walletDir, .bool .walletRbf,
   .text .whiteBind, .bool .blocksOnly, .text .changeType, .uint .checkLevel, .bool .daemonWait,
   .text .discardFee, .text .externalIP, .uint .maxMempool, .text .rpcAllowIP, .uint .rpcThreads,
   .text .torControl, .text .addressType, .text .alertNotify, .text .assumeValid,
   .text .blockNotify, .uint .checkBlocks, .bool .dataCarrier, .text .fallbackFee,
   .text .includeConf, .bool .listenOnion, .text .torPassword, .text .zmqPubRawTx,
   .uint .blockMaxSize, .int .blockVersion, .text .debugExclude, .text .dustRelayFee,
   .text .rpcWhitelist, .uint .rpcWorkQueue, .uint .stopAtHeight, .text .walletNotify,
   .text .zmqPubHashTx, .text .blockMinTxFee, .uint .bytesPerSigOp, .bool .disableWallet,
   .bool .logTimestamps, .uint .maxSendBuffer, .uint .mempoolExpiry, .text .minRelayTxFee,
   .bool .networkActive, .text .rpcCookieFile, .text .startupNotify, .uint .blockMaxWeight,
   .bool .coinStatsIndex, .bool .logThreadNames, .uint .maxConnections, .bool .persistMempool,
   .bool .printToConsole, .bool .proxyRandomize, .text .rpcCookiePerms, .text .shutdownNotify,
   .text .signetSeedNode, .bool .whitelistRelay, .text .zmqPubRawBlock, .uint .zmqPubRawTxHwm,
   .text .zmqPubSequence, .bool .acceptNonStdTxn, .uint .dataCarrierSize, .uint .maxSigCacheSize,
   .uint .maxUploadTarget, .bool .shrinkDebugFile, .text .signetChallenge,
   .uint .txConfirmTarget, .bool .txoSpenderIndex, .bool .walletBroadcast,
   .text .zmqPubHashBlock, .uint .zmqPubHashTxHwm, .blockFilterIndex, .uint .maxReceiveBuffer,
   .bool .peerBlockFilters, .bool .peerBloomFilters, .bool .privateBroadcast,
   .uint .rpcSerialVersion, .uint .zmqPubRawBlockHwm, .uint .zmqPubSequenceHwm,
   .bool .avoidPartialSpends, .uint .limitAncestorCount, .bool .logSourceLocations,
   .bool .permitBareMultisig, .reindexChainstate, .uint .zmqPubHashBlockHwm,
   .text .incrementalRelayFee, .bool .rpcWhitelistDefault, .bool .spendZeroConfChange,
   .bool .whitelistForceRelay, .uint .limitDescendantCount, .text .testActivationHeight,
   .bool .acceptStaleFeeEstimates]

theorem OptionName.mem_all (n : OptionName) : n ∈ all := by
  cases n with
  | bool option => cases option <;> decide +kernel
  | uint option => cases option <;> decide +kernel
  | int option => cases option <;> decide +kernel
  | text option => cases option <;> decide +kernel
  | dataDir | rpcPort | port | prune | blockFilterIndex | reindex | reindexChainstate =>
    decide +kernel

theorem OptionName.keys_sorted : (all.map fun n => keyNumber (utf8 n.key)).IsChain (· < ·) := by
  decide +kernel

/-- **No two options share a key.** -/
theorem OptionName.key_injective {n m : OptionName} (h : utf8 n.key = utf8 m.key) : n = m := by
  have hnodup : (all.map fun n => keyNumber (utf8 n.key)).Nodup := keys_sorted.pairwise.imp ne_of_lt
  exact List.inj_on_of_nodup_map hnodup (mem_all n) (mem_all m) (congrArg keyNumber h)

theorem OptionName.plainKey_key (n : OptionName) : Core.plainKey (utf8 n.key) = true := by
  have hall : ∀ n ∈ all, Core.plainKey (utf8 n.key) = true := by decide +kernel
  exact hall n (mem_all n)

/-- The flags of the networks. -/
theorem Network.flag_mem {network : Network} {flag : String} (h : network.flag = some flag) :
    flag ∈ ["testnet", "testnet4", "regtest", "signet"] := by
  cases network <;> simp_all [Network.flag]

theorem Network.plainKey_flag {network : Network} {flag : String} (h : network.flag = some flag) :
    Core.plainKey (utf8 flag) = true := by
  have hall : ∀ flag ∈ ["testnet", "testnet4", "regtest", "signet"],
      Core.plainKey (utf8 flag) = true := by decide +kernel
  exact hall flag (Network.flag_mem h)

/-- No option has the key of a network. -/
theorem OptionName.key_ne_flag {network : Network} {flag : String} (h : network.flag = some flag)
    (n : OptionName) : utf8 n.key ≠ utf8 flag := by
  have hall : ∀ flag ∈ ["testnet", "testnet4", "regtest", "signet"], ∀ n ∈ all,
      utf8 n.key ≠ utf8 flag := by decide +kernel
  exact hall flag (Network.flag_mem h) n (mem_all n)

/-! ## 4. Sequences of calls -/

namespace BitcoinConfig

theorem build_args (network : Network) (calls : List ConfigCall) :
    (build network calls).args =
      (init network).args ++ calls.map fun c => Core.argument (utf8 c.name.key) c.value := by
  have hfold : ∀ config : BitcoinConfig, (calls.foldl apply config).args =
      config.args ++ calls.map fun c => Core.argument (utf8 c.name.key) c.value := by
    induction calls with
    | nil => intro config; simp
    | cons c calls ih =>
      intro config
      rw [List.foldl_cons, ih, apply_eq]
      simp [setting_args, appending]
  exact hfold _

/-- **A flag is set just if some call recorded it.** -/
theorem mem_build_flags (network : Network) (calls : List ConfigCall) (f : ConfigFlag) :
    f ∈ (build network calls).flags ↔ ∃ c ∈ calls, c.flag = some f := by
  have hfold : ∀ config : BitcoinConfig, f ∈ (calls.foldl apply config).flags ↔
      f ∈ config.flags ∨ ∃ c ∈ calls, c.flag = some f := by
    induction calls with
    | nil => intro config; simp
    | cons c calls ih =>
      intro config
      rw [List.foldl_cons, ih, apply_eq]
      simp only [mem_setting_flags, List.mem_cons, exists_eq_or_imp, or_assoc]
      rfl
  rw [build, hfold]
  simp [init]

/-- What calls assign to a field is what the last of them assigned. -/
theorem foldl_assigned {β : Type} (field : BitcoinConfig → Option β) (assigned : ConfigCall → Option β)
    (hstep : ∀ config c, field (apply config c) = (assigned c).or (field config))
    (calls : List ConfigCall) (config : BitcoinConfig) :
    field (calls.foldl apply config) = (calls.filterMap assigned).getLast?.or (field config) := by
  induction calls generalizing config with
  | nil => simp
  | cons c calls ih =>
    rw [List.foldl_cons, ih, hstep]
    cases h : assigned c with
    | none => simp [h]
    | some v =>
      rw [List.filterMap_cons_some h]
      cases hl : (calls.filterMap assigned).getLast? <;> simp [List.getLast?_cons, hl]

theorem build_dataDirectory (network : Network) (calls : List ConfigCall) :
    (build network calls).dataDirectory = (calls.filterMap ConfigCall.directory).getLast? := by
  have hstep : ∀ config c, (apply config c).dataDirectory =
      c.directory.or config.dataDirectory := by
    intro config c
    rw [apply_eq]
  rw [build, foldl_assigned _ _ hstep]
  simp [init]

theorem build_rpcPortOverride (network : Network) (calls : List ConfigCall) :
    (build network calls).rpcPortOverride = (calls.filterMap ConfigCall.portOverride).getLast? := by
  have hstep : ∀ config c, (apply config c).rpcPortOverride =
      c.portOverride.or config.rpcPortOverride := by
    intro config c
    rw [apply_eq]
  rw [build, foldl_assigned _ _ hstep]
  simp [init]

end BitcoinConfig

/-! ## 5. What Core reads -/

/-- The text Core takes a call's value for; an option without a value has the empty one. -/
def ConfigCall.argText (c : ConfigCall) : Data := (c.value.map cString).getD []

/-- The settings Core reads from the arguments of some calls. -/
def callSettings (network : Network) (calls : List ConfigCall) : Core.Settings :=
  (network.flag.map fun flag => (utf8 flag, Core.SettingsValue.text [])).toList ++
    calls.map fun c => (utf8 c.name.key, .text c.argText)

section Parsing

variable {flagsOf : Data → Option Core.ArgFlags} {network : Network} {calls : List ConfigCall}

/-- The option is registered, and a call on it has a value if it needs one. -/
def ConfigCall.Registered (flagsOf : Data → Option Core.ArgFlags) (c : ConfigCall) : Prop :=
  ∃ flags, flagsOf (utf8 c.name.key) = some flags ∧
    (flags.disallowElision = true → c.value ≠ none)

theorem parseArguments_calls (h : ∀ c ∈ calls, c.Registered flagsOf) :
    Core.parseArguments flagsOf (calls.map fun c => Core.argument (utf8 c.name.key) c.value) =
      some (calls.map fun c => (utf8 c.name.key, .text c.argText)) := by
  induction calls with
  | nil => rfl
  | cons c calls ih =>
    obtain ⟨⟨flags, hflags, hvalue⟩, hcalls⟩ := List.forall_mem_cons.1 h
    rw [List.map_cons, Core.parseArguments_plain c.name.plainKey_key hflags hvalue, ih hcalls]
    rfl

/-- **Core reads the values that the calls gave**, if it knows the options. -/
theorem parseArguments_build
    (hflag : ∀ flag ∈ network.flag, ∃ flags, flagsOf (utf8 flag) = some flags ∧
      flags.disallowElision = false) (h : ∀ c ∈ calls, c.Registered flagsOf) :
    Core.parseArguments flagsOf (BitcoinConfig.build network calls).args =
      some (callSettings network calls) := by
  rw [BitcoinConfig.build_args, BitcoinConfig.init, callSettings]
  cases hnetwork : network.flag with
  | none => exact parseArguments_calls h
  | some flag =>
    obtain ⟨flags, hflags, helision⟩ := hflag flag hnetwork
    have helided : flags.disallowElision = true → (none : Option Data) ≠ none := by
      rw [helision]
      nofun
    refine (Core.parseArguments_plain (Network.plainKey_flag hnetwork) hflags helided _).trans ?_
    exact congrArg _ (parseArguments_calls h)

/-- One call on an option that is not registered spoils the others. -/
theorem parseArguments_refused {c : ConfigCall} (hc : c ∈ calls)
    (hflags : flagsOf (utf8 c.name.key) = none) :
    Core.parseArguments flagsOf (BitcoinConfig.build network calls).args = none := by
  have hcalls : Core.parseArguments flagsOf
      (calls.map fun c => Core.argument (utf8 c.name.key) c.value) = none := by
    induction calls with
    | nil => cases hc
    | cons d calls ih =>
      rw [List.map_cons]
      rcases List.mem_cons.1 hc with rfl | hc
      · exact Core.parseArguments_unregistered c.name.plainKey_key hflags _ _
      · exact Core.parseArguments_cons_none d.name.plainKey_key (ih hc) _
  rw [BitcoinConfig.build_args, BitcoinConfig.init]
  cases hnetwork : network.flag with
  | none => exact hcalls
  | some flag => exact Core.parseArguments_cons_none (Network.plainKey_flag hnetwork) hcalls none

end Parsing

/-- **With every option known, Core accepts the arguments of every sequence of calls.** -/
theorem parseArguments_anyOption (network : Network) (calls : List ConfigCall) :
    Core.parseArguments Core.anyOption (BitcoinConfig.build network calls).args =
      some (callSettings network calls) :=
  parseArguments_build (fun _ _ => ⟨_, rfl, rfl⟩) fun _ _ => ⟨_, rfl, nofun⟩

/-- **The values of an option are those of the calls on it, in their order.** -/
theorem values_callSettings (network : Network) (calls : List ConfigCall) (n : OptionName) :
    (callSettings network calls).values (utf8 n.key) =
      (calls.filter (·.name = n)).map fun c => .text c.argText := by
  have hflag : ∀ flag, network.flag = some flag → utf8 flag ≠ utf8 n.key := by
    intro flag h
    exact (n.key_ne_flag h).symm
  have hnetwork : Core.Settings.values (network.flag.map fun flag =>
      (utf8 flag, Core.SettingsValue.text [])).toList (utf8 n.key) = [] := by
    cases h : network.flag with
    | none => rfl
    | some flag => simp [Core.Settings.values, hflag flag h]
  have hcalls : Core.Settings.values (calls.map fun c =>
      (utf8 c.name.key, Core.SettingsValue.text c.argText)) (utf8 n.key) =
        (calls.filter (·.name = n)).map fun c => .text c.argText := by
    have hkey : ∀ c : ConfigCall, utf8 c.name.key = utf8 n.key ↔ c.name = n := by
      intro c
      exact ⟨OptionName.key_injective, fun h => by rw [h]⟩
    unfold Core.Settings.values
    rw [List.filter_map, List.map_map]
    simp only [Function.comp_def, hkey]
  have happend := List.filter_append (p := fun setting => decide (setting.1 = utf8 n.key))
    (network.flag.map fun flag => (utf8 flag, Core.SettingsValue.text [])).toList
    (calls.map fun c => (utf8 c.name.key, Core.SettingsValue.text c.argText))
  unfold Core.Settings.values at hnetwork hcalls ⊢
  rw [callSettings, happend, List.map_append, hnetwork, hcalls, List.nil_append]

/-- The last call on an option. -/
def lastCall (n : OptionName) (calls : List ConfigCall) : Option ConfigCall :=
  lastBy ConfigCall.name n calls

section Reading

variable (network : Network) (calls : List ConfigCall)

/-- **Core's value of an option is that of the last call on it.** -/
theorem getSetting_callSettings (n : OptionName) :
    (callSettings network calls).getSetting (utf8 n.key) =
      (lastCall n calls).map fun c => .text c.argText := by
  unfold Core.Settings.getSetting lastCall lastBy
  rw [values_callSettings, List.getLast?_map]

/-- Nothing on the command line is negated, so all the values are read. -/
theorem getArgs_callSettings (n : OptionName) :
    (callSettings network calls).getArgs (utf8 n.key) =
      (calls.filter (·.name = n)).map ConfigCall.argText := by
  have hall : ∀ v ∈ (callSettings network calls).values (utf8 n.key),
      decide (v ≠ .bool false) = true := by
    rw [values_callSettings]
    intro v hv
    obtain ⟨c, _, rfl⟩ := List.mem_map.mp hv
    simp
  unfold Core.Settings.getArgs
  rw [List.rtakeWhile_eq_self_iff.mpr hall, values_callSettings, List.map_map]
  rfl

theorem cString_decimal (n : Nat) : cString (decimal n) = decimal n := by
  unfold cString
  rw [List.takeWhile_eq_self_iff]
  intro b hb
  have hdigit := Core.isDigit_of_mem_decimal hb
  refine decide_eq_true ?_
  rintro rfl
  exact absurd hdigit (by decide)

/-- Core's value of a number is that number, up to the range of its integers. -/
theorem toInt_decimal {n : Nat} (h : n ≤ 9223372036854775807) :
    (Core.SettingsValue.text (cString (decimal n))).toInt = n := by
  rw [cString_decimal, Core.SettingsValue.toInt]
  exact Core.atoi_decimal (by omega) (by omega)

theorem name_bool {o : BoolOption} {c : ConfigCall} (h : c.name = .bool o) :
    ∃ enabled, c = .bool o enabled := by
  cases c with
  | bool option enabled =>
    cases h
    exact ⟨enabled, rfl⟩
  | _ => cases h

theorem name_blockFilterIndex {c : ConfigCall} (h : c.name = .blockFilterIndex) :
    ∃ mode, c = .blockFilterIndex mode := by
  cases c with
  | blockFilterIndex mode => exact ⟨mode, rfl⟩
  | _ => cases h

theorem name_prune {c : ConfigCall} (h : c.name = .prune) : ∃ mode, c = .prune mode := by
  cases c with
  | prune mode => exact ⟨mode, rfl⟩
  | _ => cases h

/-- Core's value of a switch is that of the last call. -/
theorem toBool_callSettings (o : BoolOption) :
    ((callSettings network calls).getSetting (utf8 o.key)).map Core.SettingsValue.toBool =
      (lastCall (.bool o) calls).map fun c => decide (c = .bool o true) := by
  have hsetting := getSetting_callSettings network calls (.bool o)
  rw [show utf8 o.key = utf8 (OptionName.bool o).key from rfl, hsetting]
  cases hlast : lastCall (.bool o) calls with
  | none => rfl
  | some c =>
    obtain ⟨enabled, rfl⟩ := name_bool (lastBy_eq_some hlast).2
    have hread : Core.interpretBool (cString (boolText enabled)) = enabled := by
      cases enabled <;> decide
    simp [ConfigCall.argText, ConfigCall.value, Core.SettingsValue.toBool, hread]

/-- **A switch is on for Core just if the last call turned it on.** -/
theorem getBoolArg_callSettings (o : BoolOption) :
    (callSettings network calls).getBoolArg (utf8 o.key) false = true ↔
      lastCall (.bool o) calls = some (.bool o true) := by
  unfold Core.Settings.getBoolArg
  rw [toBool_callSettings]
  cases lastCall (.bool o) calls <;> simp

end Reading

/-! ## 6. What Core accepts -/

/-- The options that Core does not have. -/
def unregisteredOptions : List OptionName := [.uint .blockMaxSize, .uint .rpcSerialVersion]

/-- The options that Core does not accept on its command line: those, and one that is for
    configuration files only. -/
def refusedOptions : List OptionName := unregisteredOptions ++ [.text .includeConf]

theorem getArgFlags_eq_none_iff (n : OptionName) :
    Core.getArgFlags (utf8 n.key) = none ↔ n ∈ unregisteredOptions := by
  have hall : ∀ n ∈ OptionName.all, (Core.getArgFlags (utf8 n.key)).isNone =
      decide (n ∈ unregisteredOptions) := by decide +kernel
  rw [← Option.isNone_iff_eq_none, hall n n.mem_all, decide_eq_true_eq]

/-- The options that need a value are given one. -/
theorem value_of_disallowElision (c : ConfigCall) {flags : Core.ArgFlags}
    (hflags : Core.getArgFlags (utf8 c.name.key) = some flags)
    (helision : flags.disallowElision = true) : c.value ≠ none := by
  have hall : ∀ n ∈ [OptionName.reindex, .reindexChainstate],
      (Core.getArgFlags (utf8 n.key)).all (!·.disallowElision) = true := by decide +kernel
  have hnone : c.name ∉ [OptionName.reindex, .reindexChainstate] := by
    intro hmem
    have h := hall c.name hmem
    rw [hflags, Option.all_some, helision] at h
    cases h
  intro hvalue
  cases c with
  | reindex => exact hnone List.mem_cons_self
  | reindexChainstate => exact hnone (by simp [ConfigCall.name])
  | _ => cases hvalue

/-- **Core accepts the arguments just if none of the options is refused.** -/
theorem parseParameters_build (network : Network) (calls : List ConfigCall) :
    Core.parseParameters (BitcoinConfig.build network calls).args =
      if ∀ c ∈ calls, c.name ∉ refusedOptions then some (callSettings network calls) else none := by
  have hargs := getArgs_callSettings network calls (.text .includeConf)
  change (callSettings network calls).getArgs (utf8 "includeconf") = _ at hargs
  unfold Core.parseParameters
  by_cases hknown : ∀ c ∈ calls, c.name ∉ unregisteredOptions
  · have hparse : Core.parseArguments Core.getArgFlags (BitcoinConfig.build network calls).args =
        some (callSettings network calls) := by
      refine parseArguments_build ?_ fun c hc => ?_
      · cases network <;> decide +kernel
      · have hregistered := mt (getArgFlags_eq_none_iff c.name).1 (hknown c hc)
        obtain ⟨flags, hflags⟩ := Option.ne_none_iff_exists'.1 hregistered
        exact ⟨flags, hflags, value_of_disallowElision c hflags⟩
    have hnone : (calls.filter (·.name = .text .includeConf)).map ConfigCall.argText = [] ↔
        ∀ c ∈ calls, c.name ∉ refusedOptions := by
      rw [List.map_eq_nil_iff, List.filter_eq_nil_iff]
      refine forall_congr' fun c => forall_congr' fun hc => ?_
      simp [refusedOptions, hknown c hc]
    rw [hparse, Option.bind_some, hargs]
    simp only [hnone]
  · have hrefused : ¬∀ c ∈ calls, c.name ∉ refusedOptions :=
      fun h => hknown fun c hc hmem => h c hc (List.mem_append_left _ hmem)
    have hparse : Core.parseArguments Core.getArgFlags (BitcoinConfig.build network calls).args =
        none := by
      by_contra hsome
      exact hknown fun c hc hmem =>
        hsome (parseArguments_refused hc ((getArgFlags_eq_none_iff c.name).2 hmem))
    rw [hparse, if_neg hrefused]
    rfl

end SwiftBitcoinKernel
