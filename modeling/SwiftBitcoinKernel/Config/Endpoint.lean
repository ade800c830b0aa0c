/-
  File:      SwiftBitcoinKernel/Config/Endpoint.lean
  Subject:   The RPC port and the cookie file: where the client looks and where Core serves.

  Paths are compared by the files they name (`Logic/Paths.lean`). Core is taken to start unless it
  refuses one of the options, or its check of host and port options fails; nothing else is said of
  its start.

  * `resolvedRPCPort`, `cookieURL` -- the client's side (BitcoinConfig+Client.swift);
  * `Core.getChainType`, `Core.splitHostPort`, `Core.checkHostPortOptions`, `Core.rpcEndpoints`,
    `Core.authCookieFile` -- Core's side (args.cpp, chainparamsbase.cpp, init.cpp, httpserver.cpp,
    rpc/request.cpp);
  * `getChainType_callSettings` -- Core runs the network of the configuration;
    `httpPort_callSettings`, `resolvedRPCPort_build` -- it and the client take the port of the last
    call; `httpBindAddresses_callSettings`, `authCookieFile_callSettings` -- what it serves;
  * `Kept`, `endpoint_served_iff` -- the client looks in the right place just if the server is not
    turned off, no bound address has a port of its own, and no other cookie file is named;
    `cookie_elsewhere` -- a cookie file elsewhere is not found.
-/
import SwiftBitcoinKernel.Logic.Paths
import SwiftBitcoinKernel.Config.Builder

namespace SwiftBitcoinKernel

open Logic

/-! ## 1. The client -/

/-- What the process has of its host: the working directory and Core's default data directory. -/
structure Host where
  workingDirectory : List Data
  defaultDataDir : List Data

/-- A path given to the process, from the root. -/
def Host.absolute (host : Host) (path : Data) : List Data :=
  Paths.absolute 47 46 host.workingDirectory path

/-- `BitcoinNetwork.defaultRPCPort`. -/
def Network.defaultRPCPort : Network → Nat
  | .mainnet => 8332
  | .testnet => 18332
  | .testnet4 => 48332
  | .regtest => 18443
  | .signet => 38332

/-- `BitcoinNetwork.dataDirName`. -/
def Network.dataDirName : Network → String
  | .mainnet => ""
  | .testnet => "testnet3"
  | .testnet4 => "testnet4"
  | .regtest => "regtest"
  | .signet => "signet"

/-- The component a directory name adds to a path, if it is one. -/
def subdirectory (name : String) : List Data := if utf8 name = [] then [] else [utf8 name]

/-- `resolvedRPCPort`. -/
def BitcoinConfig.resolvedRPCPort (config : BitcoinConfig) : Nat :=
  (config.rpcPortOverride.map UInt16.toNat).getD config.network.defaultRPCPort

/-- `cookieURL`, by the file it names; a relative path is one from the working directory. -/
def BitcoinConfig.cookieURL (config : BitcoinConfig) (host : Host) : Option (List Data) :=
  config.dataDirectory.map fun path =>
    Paths.normal 46
      (host.absolute path ++ subdirectory config.network.dataDirName ++ [utf8 ".cookie"])

/-! ## 2. Core -/

namespace Core

/-- `CBaseChainParams::DataDir`. -/
def baseDataDir : Network → String
  | .mainnet => ""
  | .testnet => "testnet3"
  | .testnet4 => "testnet4"
  | .signet => "signet"
  | .regtest => "regtest"

/-- `CBaseChainParams::RPCPort`. -/
def baseRPCPort : Network → Nat
  | .mainnet => 8332
  | .testnet => 18332
  | .testnet4 => 48332
  | .signet => 38332
  | .regtest => 18443

/-- `ChainTypeFromString`. -/
def chainTypeFromString (chain : Data) : Option Network :=
  if chain = utf8 "main" then some .mainnet
  else if chain = utf8 "test" then some .testnet
  else if chain = utf8 "testnet4" then some .testnet4
  else if chain = utf8 "signet" then some .signet
  else if chain = utf8 "regtest" then some .regtest
  else none

/-- `ArgsManager::GetChainType`; there is none for a wrong combination or an unknown chain. -/
def getChainType (settings : Settings) : Option Network :=
  let regtest := settings.getBoolArg (utf8 "regtest") false
  let signet := settings.getBoolArg (utf8 "signet") false
  let testnet := settings.getBoolArg (utf8 "testnet") false
  let testnet4 := settings.getBoolArg (utf8 "testnet4") false
  let chain := settings.getArg (utf8 "chain")
  if 1 < chain.isSome.toNat + regtest.toNat + signet.toNat + testnet.toNat + testnet4.toNat then none
  else if chain.isSome then chain.bind chainTypeFromString
  else if regtest then some .regtest
  else if signet then some .signet
  else if testnet then some .testnet
  else if testnet4 then some .testnet4
  else some .mainnet

/-- What stands before the last separator, or all of it. -/
def beforeLast (separator : UInt8) (s : Data) : Data :=
  if separator ∈ s then s.take (s.length - (s.rtakeWhile (· ≠ separator)).length - 1) else s

/-- A host without its brackets. -/
def unbracketed (host : Data) : Data :=
  if host.head? = some 91 ∧ host.getLast? = some 93 then host.tail.dropLast else host

/-- `SplitHostPort`: the host and the port, which is the one given if the text has none. -/
def splitHostPort (s : Data) (port : Nat) : Option (Data × Nat) :=
  let before := beforeLast 58 s
  -- a colon separates the port if it is the first byte, follows a bracket, or is the only one
  if 58 ∈ s ∧ (before = [] ∨ (s.head? = some 91 ∧ before.getLast? = some 93) ∨ 58 ∉ before) then
    (toIntegral 65535 (s.rtakeWhile (· ≠ 58))).bind fun n =>
      if n = 0 then none else some (unbracketed before, n)
  else some (unbracketed s, port)

/-- An option whose values `CheckHostPortOptions` splits: a UNIX socket may stand there, or a suffix
    after an equals sign. -/
structure HostPortOption where
  name : String
  unix : Bool
  suffixAllowed : Bool

def hostPortOptions : List HostPortOption :=
  [⟨"i2psam", false, false⟩, ⟨"onion", true, false⟩, ⟨"proxy", true, true⟩, ⟨"bind", false, true⟩,
   ⟨"rpcbind", false, false⟩, ⟨"torcontrol", false, false⟩, ⟨"whitebind", false, false⟩,
   ⟨"zmqpubhashblock", true, false⟩, ⟨"zmqpubhashtx", true, false⟩, ⟨"zmqpubrawblock", true, false⟩,
   ⟨"zmqpubrawtx", true, false⟩, ⟨"zmqpubsequence", true, false⟩]

/-- `CheckHostPortOptions`. -/
def checkHostPortOptions (settings : Settings) : Bool :=
  (["port", "rpcport"].all fun name =>
    (settings.getArg (utf8 name)).all fun port => (toIntegral 65535 port).any (· ≠ 0)) &&
  hostPortOptions.all fun option =>
    (settings.getArgs (utf8 option.name)).all fun value =>
      (splitHostPort (if option.suffixAllowed then beforeLast 61 value else value) 0).isSome ||
        (option.unix && (utf8 "unix:").isPrefixOf value)

/-- The loop over the bound addresses in `HTTPBindAddresses`. -/
def bindAddresses (port : Nat) : List Data → Option (List (Data × Nat))
  | [] => some []
  | value :: values =>
    (splitHostPort value port).bind fun endpoint => (bindAddresses port values).map (endpoint :: ·)

/-- The port of `HTTPBindAddresses`, as a `uint16_t`. -/
def httpPort (settings : Settings) (chain : Network) : Nat :=
  (settings.getIntArg (utf8 "rpcport") (baseRPCPort chain) % 65536).toNat

/-- The endpoints of `HTTPBindAddresses`. -/
def httpBindAddresses (settings : Settings) (chain : Network) : Option (List (Data × Nat)) :=
  let port := httpPort settings chain
  if settings.getArgs (utf8 "rpcallowip") = [] ∨ settings.getArgs (utf8 "rpcbind") = [] then
    some [(utf8 "::1", port), (utf8 "127.0.0.1", port)]
  else bindAddresses port (settings.getArgs (utf8 "rpcbind"))

/-- The endpoints Core serves RPC at, unless it refuses to start; `-server` is on unless it is set.
    -/
def rpcEndpoints (settings : Settings) (chain : Network) : Option (List (Data × Nat)) :=
  if checkHostPortOptions settings then
    if settings.getBoolArg (utf8 "server") true then httpBindAddresses settings chain else some []
  else none

/-- `ArgsManager::GetPathArg`. -/
def getPathArg (settings : Settings) (name fallback : Data) : Data :=
  if settings.getSetting name = some (.bool false) then []
  else
    let path := (settings.getArg name).getD []
    if path = [] then fallback else path

/-- `ArgsManager::GetDataDirBase`. -/
def getDataDirBase (host : Host) (settings : Settings) : List Data :=
  let datadir := getPathArg settings (utf8 "datadir") []
  if datadir = [] then host.defaultDataDir else host.absolute datadir

/-- `ArgsManager::GetDataDirNet`. -/
def getDataDirNet (host : Host) (settings : Settings) (chain : Network) : List Data :=
  getDataDirBase host settings ++ subdirectory (baseDataDir chain)

/-- `GetAuthCookieFile`, by the file it names; there is none if the option is negated. -/
def authCookieFile (host : Host) (settings : Settings) (chain : Network) : Option (List Data) :=
  let file := getPathArg settings (utf8 "rpccookiefile") (utf8 ".cookie")
  if file = [] then none
  else some (Paths.normal 46 (Paths.absolute 47 46 (getDataDirNet host settings chain) file))

/-- Whether a text splits does not depend on the port it is given. -/
theorem splitHostPort_isSome (s : Data) (port port' : Nat) :
    (splitHostPort s port).isSome = (splitHostPort s port').isSome := by
  simp only [splitHostPort]
  split <;> rfl

theorem bindAddresses_some {port : Nat} {values : List Data}
    (h : ∀ value ∈ values, (splitHostPort value port).isSome = true) :
    ∃ endpoints, bindAddresses port values = some endpoints ∧ endpoints.length = values.length ∧
      ((∀ e ∈ endpoints, e.2 = port) ↔
        ∀ value ∈ values, (splitHostPort value port).map Prod.snd = some port) := by
  induction values with
  | nil => exact ⟨[], rfl, rfl, by simp⟩
  | cons value values ih =>
    obtain ⟨endpoint, hsplit⟩ := Option.isSome_iff_exists.mp (h value List.mem_cons_self)
    obtain ⟨endpoints, hbind, hlength, hports⟩ := ih fun v hv => h v (List.mem_cons_of_mem value hv)
    refine ⟨endpoint :: endpoints, by simp [bindAddresses, hsplit, hbind], by simp [hlength], ?_⟩
    rw [List.forall_mem_cons, List.forall_mem_cons, hports, hsplit]
    simp

end Core

/-! ## 3. What Core serves, by the calls -/

section Calls

variable (network : Network) (calls : List ConfigCall)

theorem build_network : (BitcoinConfig.build network calls).network = network := by
  have hfold : ∀ config : BitcoinConfig, (calls.foldl BitcoinConfig.apply config).network =
      config.network := by
    induction calls with
    | nil => intro config; rfl
    | cons c calls ih =>
      intro config
      rw [List.foldl_cons, ih, BitcoinConfig.apply_eq]
      cases c.flag <;> rfl
  exact hfold _

/-- A key that no option has is set by the network's flag only. -/
theorem getSetting_flag {name : String} (h : ∀ n ∈ OptionName.all, utf8 n.key ≠ utf8 name) :
    (callSettings network calls).getSetting (utf8 name) =
      network.flag.bind fun flag => if utf8 flag = utf8 name then some (.text []) else none := by
  have hcalls : (calls.map fun c =>
      ((utf8 c.name.key, Core.SettingsValue.text c.argText) : Data × Core.SettingsValue)).filter
        (fun setting => setting.1 = utf8 name) = [] := by
    rw [List.filter_eq_nil_iff]
    intro setting hsetting
    obtain ⟨c, _, rfl⟩ := List.mem_map.mp hsetting
    simpa using h c.name c.name.mem_all
  unfold Core.Settings.getSetting Core.Settings.values callSettings
  rw [List.filter_append, hcalls, List.append_nil]
  cases network.flag with
  | none => rfl
  | some flag => by_cases hflag : utf8 flag = utf8 name <;> simp [hflag]

/-- **Core runs the network of the configuration.** -/
theorem getChainType_callSettings :
    Core.getChainType (callSettings network calls) = some network := by
  have hnames : ∀ name ∈ ["regtest", "signet", "testnet", "testnet4", "chain"],
      ∀ n ∈ OptionName.all, utf8 n.key ≠ utf8 name := by decide +kernel
  have hregtest := getSetting_flag network calls (hnames "regtest" (by simp))
  have hsignet := getSetting_flag network calls (hnames "signet" (by simp))
  have htestnet := getSetting_flag network calls (hnames "testnet" (by simp))
  have htestnet4 := getSetting_flag network calls (hnames "testnet4" (by simp))
  have hchain := getSetting_flag network calls (hnames "chain" (by simp))
  unfold Core.getChainType Core.Settings.getBoolArg Core.Settings.getArg
  rw [hregtest, hsignet, htestnet, htestnet4, hchain]
  cases network <;> decide

/-- The port that a call set last, or else that of the network. -/
def lastRPCPort (network : Network) (calls : List ConfigCall) : Nat :=
  (((lastCall .rpcPort calls).bind ConfigCall.portOverride).map UInt16.toNat).getD
    (Core.baseRPCPort network)

theorem resolvedRPCPort_build :
    (BitcoinConfig.build network calls).resolvedRPCPort = lastRPCPort network calls := by
  have hassigned : ∀ c : ConfigCall, c.portOverride.isSome = true ↔ c.name = .rpcPort := by
    intro c
    cases c <;> simp [ConfigCall.portOverride, ConfigCall.name]
  have hbase : Core.baseRPCPort network = network.defaultRPCPort := by cases network <;> rfl
  unfold BitcoinConfig.resolvedRPCPort lastRPCPort
  rw [BitcoinConfig.build_rpcPortOverride, getLast?_filterMap hassigned calls, build_network, hbase]
  rfl

theorem httpPort_callSettings :
    Core.httpPort (callSettings network calls) network = lastRPCPort network calls := by
  have hsetting := getSetting_callSettings network calls .rpcPort
  unfold Core.httpPort Core.Settings.getIntArg lastRPCPort
  rw [show utf8 "rpcport" = utf8 OptionName.rpcPort.key from rfl, hsetting]
  cases hlast : lastCall .rpcPort calls with
  | none => cases network <;> rfl
  | some c =>
    have hname : c.name = .rpcPort := (lastBy_eq_some hlast).2
    cases c with
    | rpcPort port =>
      have hport : port.toNat < 65536 := port.toNat_lt
      have hread : (Core.SettingsValue.text (ConfigCall.rpcPort port).argText).toInt = port.toNat :=
        toInt_decimal (by omega)
      simp only [Option.map_some, Option.bind_some, Option.getD_some, hread, ConfigCall.portOverride]
      omega
    | _ => cases hname

/-- The values Core has of a text option are those of the calls, as C strings. -/
theorem mem_getArgs_text (o : TextOption) (text : Data) :
    text ∈ (callSettings network calls).getArgs (utf8 o.key) ↔
      ∃ value, .text o value ∈ calls ∧ cString value = text := by
  have hargs := getArgs_callSettings network calls (.text o)
  rw [show utf8 o.key = utf8 (OptionName.text o).key from rfl, hargs, List.mem_map]
  constructor
  · intro h
    obtain ⟨c, hc, htext⟩ := h
    obtain ⟨hmem, hname⟩ := List.mem_filter.mp hc
    cases c with
    | text option value =>
      cases of_decide_eq_true hname
      exact ⟨value, hmem, htext⟩
    | _ => cases of_decide_eq_true hname
  · intro h
    obtain ⟨value, hmem, htext⟩ := h
    exact ⟨.text o value, List.mem_filter.mpr ⟨hmem, decide_eq_true rfl⟩, htext⟩

theorem getArgs_text_ne_nil (o : TextOption) :
    (callSettings network calls).getArgs (utf8 o.key) ≠ [] ↔ ∃ value, .text o value ∈ calls := by
  have hmem := mem_getArgs_text network calls o
  constructor
  · intro h
    obtain ⟨text, htext⟩ := List.exists_mem_of_ne_nil _ h
    obtain ⟨value, hvalue, _⟩ := (hmem text).mp htext
    exact ⟨value, hvalue⟩
  · intro h
    obtain ⟨value, hvalue⟩ := h
    exact List.ne_nil_of_mem ((hmem (cString value)).mpr ⟨value, hvalue, rfl⟩)

/-- The bound addresses that are used have no other port of their own. -/
def BindsKept (port : Nat) (calls : List ConfigCall) : Prop :=
  (∃ ip, .text .rpcAllowIP ip ∈ calls) → ∀ address, .text .rpcBind address ∈ calls →
    (Core.splitHostPort (cString address) port).map Prod.snd = some port

/-- **The addresses Core binds**, where its check lets the arguments pass. -/
theorem httpBindAddresses_callSettings
    (hcheck : Core.checkHostPortOptions (callSettings network calls) = true) :
    ∃ endpoints, Core.httpBindAddresses (callSettings network calls) network = some endpoints ∧
      endpoints ≠ [] ∧ ((∀ e ∈ endpoints, e.2 = lastRPCPort network calls) ↔
        BindsKept (lastRPCPort network calls) calls) := by
  have hport := httpPort_callSettings network calls
  have hallow := getArgs_text_ne_nil network calls .rpcAllowIP
  have hmem := mem_getArgs_text network calls .rpcBind
  change (callSettings network calls).getArgs (utf8 "rpcallowip") ≠ [] ↔ _ at hallow
  change ∀ text, text ∈ (callSettings network calls).getArgs (utf8 "rpcbind") ↔ _ at hmem
  simp only [Core.httpBindAddresses, hport]
  by_cases hnone : (callSettings network calls).getArgs (utf8 "rpcallowip") = [] ∨
      (callSettings network calls).getArgs (utf8 "rpcbind") = []
  · rw [if_pos hnone]
    refine ⟨_, rfl, by simp, ⟨fun _ => ?_, fun _ => by simp⟩⟩
    intro hip address haddress
    rcases hnone with hnone | hnone
    · exact absurd hnone (hallow.mpr hip)
    · have haddress' := (hmem (cString address)).mpr ⟨address, haddress, rfl⟩
      rw [hnone] at haddress'
      exact absurd haddress' (by simp)
  · rw [if_neg hnone]
    rw [not_or] at hnone
    have hsome : ∀ text ∈ (callSettings network calls).getArgs (utf8 "rpcbind"),
        (Core.splitHostPort text (lastRPCPort network calls)).isSome = true := by
      intro text htext
      simp only [Core.checkHostPortOptions, Bool.and_eq_true] at hcheck
      have hoption := List.all_eq_true.mp hcheck.2 ⟨"rpcbind", false, false⟩
        (by simp [Core.hostPortOptions])
      have hsplit := List.all_eq_true.mp hoption text htext
      rw [Core.splitHostPort_isSome text _ 0]
      simpa using hsplit
    obtain ⟨endpoints, hbind, hlength, hports⟩ := Core.bindAddresses_some hsome
    refine ⟨endpoints, hbind, ?_, hports.trans ?_⟩
    · intro hnil
      rw [hnil] at hlength
      exact hnone.2 (List.length_eq_zero_iff.mp hlength.symm)
    · constructor
      · intro h _ address haddress
        exact h _ ((hmem (cString address)).mpr ⟨address, haddress, rfl⟩)
      · intro h text htext
        obtain ⟨address, haddress, rfl⟩ := (hmem text).mp htext
        exact h (hallow.mp hnone.1) address haddress

/-- The text Core has of the last call on a text option, empty if there is none. -/
def lastText (o : TextOption) (calls : List ConfigCall) : Data :=
  ((lastCall (.text o) calls).map ConfigCall.argText).getD []

/-- No setting from a call is a negation. -/
theorem getPathArg_callSettings (n : OptionName) (fallback : Data) :
    Core.getPathArg (callSettings network calls) (utf8 n.key) fallback =
      if ((lastCall n calls).map ConfigCall.argText).getD [] = [] then fallback
      else ((lastCall n calls).map ConfigCall.argText).getD [] := by
  unfold Core.getPathArg Core.Settings.getArg
  rw [getSetting_callSettings]
  cases lastCall n calls <;> rfl

section Directory

variable {calls} (host : Host) {path : Data} (hpath : lastCall .dataDir calls = some (.dataDir path))
  (hne : path ≠ []) (hnul : 0 ∉ path)
include hpath

include hne hnul in
theorem getDataDirBase_callSettings :
    Core.getDataDirBase host (callSettings network calls) = host.absolute path := by
  have hdirectory := getPathArg_callSettings network calls .dataDir []
  have hargText : (ConfigCall.dataDir path).argText = path := cString_eq_self_iff.2 hnul
  change Core.getPathArg _ (utf8 "datadir") [] = _ at hdirectory
  rw [hpath, Option.map_some, Option.getD_some, hargText, if_neg hne] at hdirectory
  unfold Core.getDataDirBase
  rw [hdirectory]
  exact if_neg hne

include hne hnul in
/-- **Where Core writes the cookie**: the last file named, in the directory of the network. -/
theorem authCookieFile_callSettings :
    Core.authCookieFile host (callSettings network calls) network =
      some (Paths.normal 46 (Paths.absolute 47 46
        (host.absolute path ++ subdirectory network.dataDirName)
        (if lastText .rpcCookieFile calls = [] then utf8 ".cookie"
          else lastText .rpcCookieFile calls))) := by
  have hfile := getPathArg_callSettings network calls (.text .rpcCookieFile) (utf8 ".cookie")
  have hbase : Core.baseDataDir network = network.dataDirName := by cases network <;> rfl
  change Core.getPathArg _ (utf8 "rpccookiefile") _ = if lastText .rpcCookieFile calls = [] then _
    else lastText .rpcCookieFile calls at hfile
  have hnonempty : (if lastText .rpcCookieFile calls = [] then utf8 ".cookie"
      else lastText .rpcCookieFile calls) ≠ [] := by
    split
    next => decide
    next h => exact h
  simp only [Core.authCookieFile, Core.getDataDirNet, hfile, if_neg hnonempty,
    getDataDirBase_callSettings network host hpath hne hnul, hbase]

/-- Where the client looks for it. -/
theorem cookieURL_build :
    (BitcoinConfig.build network calls).cookieURL host = some (Paths.normal 46
      (host.absolute path ++ subdirectory network.dataDirName ++ [utf8 ".cookie"])) := by
  have hassigned : ∀ c : ConfigCall, c.directory.isSome = true ↔ c.name = .dataDir := by
    intro c
    cases c <;> simp [ConfigCall.directory, ConfigCall.name]
  have hdirectory : (BitcoinConfig.build network calls).dataDirectory = some path := by
    rw [BitcoinConfig.build_dataDirectory, getLast?_filterMap hassigned calls]
    rw [lastCall] at hpath
    rw [hpath]
    rfl
  unfold BitcoinConfig.cookieURL
  rw [hdirectory, build_network]
  rfl

end Directory

/-- The directory of the network under a data directory. -/
def Host.networkDirectory (host : Host) (network : Network) (path : Data) : List Data :=
  Paths.normal 46 (host.absolute path ++ subdirectory network.dataDirName)

/-- A cookie file that is the default one by its text. An absolute path leads to `.cookie` in the
    directory; a relative one comes down again into the directories it went up from, and then to
    `.cookie`. The empty text names no file. -/
structure CookieKept (directory : List Data) (file : Data) : Prop where
  absolute : file.head? = some 47 →
    (Paths.climb 46 (Paths.components 47 46 file)).2 = directory ++ [utf8 ".cookie"]
  relative : file ≠ [] → file.head? ≠ some 47 →
    (Paths.climb 46 (Paths.components 47 46 file)).2 =
      directory.rtake (Paths.climb 46 (Paths.components 47 46 file)).1 ++ [utf8 ".cookie"]

/-- **The client and Core name the same file just if it is kept.** -/
theorem cookieURL_iff {calls : List ConfigCall} (host : Host) {path : Data}
    (hpath : lastCall .dataDir calls = some (.dataDir path)) (hne : path ≠ []) (hnul : 0 ∉ path) :
    Core.authCookieFile host (callSettings network calls) network =
        (BitcoinConfig.build network calls).cookieURL host ↔
      CookieKept (host.networkDirectory network path) (lastText .rpcCookieFile calls) := by
  have hname : [46, 46] ∉ [utf8 ".cookie"] := by decide
  rw [authCookieFile_callSettings network host hpath hne hnul, cookieURL_build network host hpath,
    Option.some.injEq, Paths.normal_append hname]
  change _ = host.networkDirectory network path ++ _ ↔ _
  by_cases hfile : lastText .rpcCookieFile calls = []
  · -- both name `.cookie` in the directory of the network
    rw [if_pos hfile, Paths.absolute_name (by decide) (by decide) (by decide),
      Paths.normal_append hname, hfile]
    exact ⟨fun _ => ⟨nofun, fun h => absurd rfl h⟩, fun _ => rfl⟩
  · rw [if_neg hfile, Paths.absolute]
    by_cases hroot : (lastText .rpcCookieFile calls).head? = some 47
    · rw [if_pos hroot, Paths.normal_eq_climb]
      exact ⟨fun h => ⟨fun _ => h, fun _ hrelative => absurd hroot hrelative⟩,
        fun h => h.absolute hroot⟩
    · rw [if_neg hroot, Host.networkDirectory, Paths.normal_append_eq_iff]
      exact ⟨fun h => ⟨fun habsolute => absurd habsolute hroot, fun _ _ => h⟩,
        fun h => h.relative hfile hroot⟩

end Calls

/-! ## 4. The endpoint -/

/-- The client derives the endpoint that Core serves: for the network the arguments choose, if Core
    starts, it listens, at the resolved port only, and writes the cookie to the file the client
    reads. -/
def EndpointServed (host : Host) (config : BitcoinConfig) : Prop :=
  ∀ settings, Core.parseParameters config.args = some settings →
    ∃ chain, Core.getChainType settings = some chain ∧
      ∀ endpoints, Core.rpcEndpoints settings chain = some endpoints →
        endpoints ≠ [] ∧ (∀ e ∈ endpoints, e.2 = config.resolvedRPCPort) ∧
        Core.authCookieFile host settings chain = config.cookieURL host

/-- Core starts: none of the options is refused, nor a host or port. -/
structure Starts (network : Network) (calls : List ConfigCall) : Prop where
  accepted : ∀ c ∈ calls, c.name ∉ refusedOptions
  hosts : Core.checkHostPortOptions (callSettings network calls) = true

/-- What the derivation rests on, for the last data directory: the server is not turned off, no
    bound address has a port other than the one set last, and the cookie stays in its place. -/
structure Kept (host : Host) (network : Network) (calls : List ConfigCall) (path : Data) :
    Prop where
  server : lastCall (.bool .server) calls ≠ some (.bool .server false)
  binds : BindsKept (lastRPCPort network calls) calls
  cookie : CookieKept (host.networkDirectory network path) (lastText .rpcCookieFile calls)

theorem getBoolArg_server (network : Network) (calls : List ConfigCall) :
    (callSettings network calls).getBoolArg (utf8 "server") true = true ↔
      lastCall (.bool .server) calls ≠ some (.bool .server false) := by
  have hvalue := toBool_callSettings network calls .server
  change ((callSettings network calls).getSetting (utf8 "server")).map _ = _ at hvalue
  unfold Core.Settings.getBoolArg
  rw [hvalue]
  cases hlast : lastCall (.bool .server) calls with
  | none => simp
  | some c =>
    obtain ⟨enabled, rfl⟩ := name_bool (lastBy_eq_some hlast).2
    cases enabled <;> simp

/-- **When the client looks where Core serves.** For every sequence of calls whose last data
    directory is a path, absolute or not: unless Core refuses the arguments, just if nothing moves
    the port or the cookie. -/
theorem endpoint_served_iff (host : Host) (network : Network) (calls : List ConfigCall) (path : Data)
    (hpath : lastCall .dataDir calls = some (.dataDir path)) (hne : path ≠ []) (hnul : 0 ∉ path) :
    EndpointServed host (BitcoinConfig.build network calls) ↔
      (Starts network calls → Kept host network calls path) := by
  have hserver := getBoolArg_server network calls
  have hcookie := cookieURL_iff network host hpath hne hnul
  unfold EndpointServed
  rw [parseParameters_build, resolvedRPCPort_build]
  by_cases haccepted : ∀ c ∈ calls, c.name ∉ refusedOptions
  · simp only [if_pos haccepted, Option.some.injEq, forall_eq', getChainType_callSettings,
      exists_eq_left']
    by_cases hcheck : Core.checkHostPortOptions (callSettings network calls) = true
    · obtain ⟨endpoints, hbind, hnonempty, hports⟩ :=
        httpBindAddresses_callSettings network calls hcheck
      by_cases hon : lastCall (.bool .server) calls ≠ some (.bool .server false)
      · have hendpoints :
            Core.rpcEndpoints (callSettings network calls) network = some endpoints := by
          rw [Core.rpcEndpoints, if_pos hcheck, if_pos (hserver.mpr hon), hbind]
        rw [hendpoints, imp_iff_right (Starts.mk haccepted hcheck)]
        constructor
        · intro h
          obtain ⟨_, hport, hfile⟩ := h endpoints rfl
          exact ⟨hon, hports.mp hport, hcookie.mp hfile⟩
        · intro h endpoints' heq
          cases heq
          exact ⟨hnonempty, hports.mpr h.binds, hcookie.mpr h.cookie⟩
      · have hoff : Core.rpcEndpoints (callSettings network calls) network = some [] := by
          rw [Core.rpcEndpoints, if_pos hcheck, if_neg (fun h => hon (hserver.mp h))]
        rw [hoff]
        exact ⟨fun h => absurd rfl (h [] rfl).1,
          fun h => absurd (h ⟨haccepted, hcheck⟩).server hon⟩
    · have hrefused : Core.rpcEndpoints (callSettings network calls) network = none := by
        rw [Core.rpcEndpoints, if_neg hcheck]
      rw [hrefused]
      exact ⟨fun _ h => absurd h.hosts hcheck, fun _ _ h => nomatch h⟩
  · simp only [if_neg haccepted]
    exact ⟨fun _ h => absurd h.accepted haccepted, fun _ _ h => nomatch h⟩

/-- A data directory alone, on regtest. -/
theorem endpoint_served_directory :
    EndpointServed ⟨[], []⟩ (BitcoinConfig.build .regtest [.dataDir (utf8 "/d")]) := by
  refine (endpoint_served_iff _ _ _ (utf8 "/d") rfl (by decide) (by decide)).mpr fun _ => ?_
  refine ⟨by decide, fun hip => ?_, ⟨nofun, fun h => absurd rfl h⟩⟩
  obtain ⟨ip, hip⟩ := hip
  cases List.mem_singleton.mp hip

/-- A cookie file elsewhere: Core writes it there, and the client waits for it in the data
    directory. -/
theorem cookie_elsewhere :
    let host : Host := ⟨[], []⟩
    let config := BitcoinConfig.build .regtest
      [.dataDir (utf8 "/d"), .text .rpcCookieFile (utf8 "/c")]
    (∃ settings, Core.parseParameters config.args = some settings ∧
      Core.getChainType settings = some .regtest ∧
      Core.rpcEndpoints settings .regtest =
        some [(utf8 "::1", 18443), (utf8 "127.0.0.1", 18443)] ∧
      Core.authCookieFile host settings .regtest = some [utf8 "c"]) ∧
    config.cookieURL host = some [utf8 "d", utf8 "regtest", utf8 ".cookie"] := by
  have hparse := parseParameters_build .regtest
    [.dataDir (utf8 "/d"), .text .rpcCookieFile (utf8 "/c")]
  rw [if_pos (by decide)] at hparse
  refine ⟨⟨_, hparse, ?_⟩, ?_⟩ <;> decide +kernel

end SwiftBitcoinKernel
