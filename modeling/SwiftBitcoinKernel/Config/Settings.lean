/-
  File:      SwiftBitcoinKernel/Config/Settings.lean
  Subject:   Core's reading of its command line, `ArgsManager` (common/args.cpp, common/settings.cpp).

  Only the command line is read here: no forced setting, no settings file and no configuration file
  says anything. The options are those of a build for Linux or macOS.

  * `localeIndependentAtoi`, `toIntegral` -- numbers; `atoi_decimal` -- a decimal text is read back;
  * `getArgFlags` -- the options that are registered; `anyOption` -- as if all were;
  * `interpretKey`, `interpretValue`, `parseArguments` -- from the arguments, C strings, to settings;
    `parseArguments_plain` -- an argument with a plain key adds its value to the option of that key,
    if that is registered; `parseArguments_unregistered` -- or else all of them are refused;
  * `getSetting`, `getArg`, `getArgs`, `getBoolArg`, `getIntArg` -- the values of an option: the last
    one, or all of them after the last negation;
  * `parseParameters` -- what Core starts with, if it accepts its command line.
-/
import Mathlib.Data.List.DropRight
import SwiftBitcoinKernel.Rpc.UniValue

namespace SwiftBitcoinKernel

/-- The bytes of a text. -/
def utf8 (s : String) : Data := s.toUTF8.data.toList

/-- A C string holds all the bytes it is made of just if none of them is a NUL. -/
theorem cString_eq_self_iff {bytes : Data} : cString bytes = bytes ↔ 0 ∉ bytes := by
  rw [cString, List.takeWhile_eq_self_iff]
  constructor
  · intro h hmem
    exact absurd (h 0 hmem) (by decide)
  · intro h b hb
    exact decide_eq_true fun hzero => h (hzero ▸ hb)

namespace Core

/-! ## 1. Numbers -/

/-- `IsDigit`. -/
def isDigit (c : UInt8) : Bool := 48 ≤ c ∧ c ≤ 57

/-- `IsSpace`. -/
def isSpace (c : UInt8) : Bool := c = 32 ∨ c = 12 ∨ c = 10 ∨ c = 13 ∨ c = 9 ∨ c = 11

/-- `TrimStringView`. -/
def trimStringView (s : Data) : Data := (s.dropWhile isSpace).rdropWhile isSpace

/-- The number written by some digits. -/
def digitsValue (digits : Data) : Nat := digits.foldl (fun n d => 10 * n + (d.toNat - 48)) 0

/-- `std::from_chars` at a signed type, before the range is looked at: the longest run of digits
    after an optional minus sign. -/
def fromChars (s : Data) : Option Int :=
  if s.head? = some 45 then
    let digits := s.tail.takeWhile isDigit
    if digits = [] then none else some (-(digitsValue digits : Int))
  else
    let digits := s.takeWhile isDigit
    if digits = [] then none else some (digitsValue digits)

/-- What `LocaleIndependentAtoi` makes of the answer of `from_chars`. -/
def saturate (lo hi : Int) : Option Int → Int
  | none => 0
  | some n => max lo (min hi n)

/-- `LocaleIndependentAtoi`, at the type of the numbers from `lo` to `hi`. -/
def localeIndependentAtoi (lo hi : Int) (str : Data) : Int :=
  let s := trimStringView str
  if s.head? = some 43 then
    if s.tail.head? = some 45 then 0 else saturate lo hi (fromChars s.tail)
  else saturate lo hi (fromChars s)

/-- `ToIntegral`, at the unsigned type of the numbers up to `hi`: the whole text is digits. -/
def toIntegral (hi : Nat) (str : Data) : Option Nat :=
  if str ≠ [] ∧ str.all isDigit ∧ digitsValue str ≤ hi then some (digitsValue str) else none

end Core

/-- The decimal text of a number. -/
def decimal (n : Nat) : Data := (Nat.toDigits 10 n).map fun c => UInt8.ofNat c.toNat

namespace Core

theorem decimal_ne_nil (n : Nat) : decimal n ≠ [] := by
  intro h
  exact Nat.toDigits_ne_nil (List.map_eq_nil_iff.mp h)

/-- A digit as a character and as a byte. -/
theorem toNat_ofNat_digit {c : Char} (hc : c.isDigit = true) :
    48 ≤ c.toNat ∧ c.toNat ≤ 57 ∧ (UInt8.ofNat c.toNat).toNat = c.toNat := by
  have hrange : 48 ≤ c.toNat ∧ c.toNat ≤ 57 := by
    simpa [Char.isDigit, UInt32.le_iff_toNat_le] using hc
  refine ⟨hrange.1, hrange.2, ?_⟩
  rw [UInt8.toNat_ofNat']
  omega

theorem isDigit_of_mem_decimal {n : Nat} {b : UInt8} (hb : b ∈ decimal n) : isDigit b = true := by
  obtain ⟨c, hc, rfl⟩ := List.mem_map.mp hb
  obtain ⟨hlo, hhi, heq⟩ := toNat_ofNat_digit (Nat.isDigit_of_mem_toDigits (by omega) (by omega) hc)
  have h48 : (48 : UInt8).toNat = 48 := rfl
  have h57 : (57 : UInt8).toNat = 57 := rfl
  simp only [isDigit, decide_eq_true_eq, UInt8.le_iff_toNat_le]
  omega

/-- Digits read as the number they write. -/
theorem digitsValue_decimal (n : Nat) : digitsValue (decimal n) = n := by
  have hfold : ∀ (l : List Char) (m : Nat), (∀ c ∈ l, c.isDigit = true) →
      (l.map fun c => UInt8.ofNat c.toNat).foldl (fun n d => 10 * n + (d.toNat - 48)) m =
        Nat.ofDigitChars 10 l m := by
    intro l
    induction l with
    | nil => intro m _; rfl
    | cons c l ih =>
      intro m hl
      obtain ⟨_, _, heq⟩ := toNat_ofNat_digit (hl c List.mem_cons_self)
      rw [List.map_cons, List.foldl_cons, heq, ih _ fun d hd => hl d (List.mem_cons_of_mem c hd)]
      rfl
  have hdigits : ∀ c ∈ Nat.toDigits 10 n, c.isDigit = true := by
    intro c hc
    exact Nat.isDigit_of_mem_toDigits (by omega) (by omega) hc
  rw [digitsValue, decimal, hfold _ _ hdigits]
  exact Nat.ofDigitChars_toDigits (by omega) (by omega)

theorem decimal_injective {n m : Nat} (h : decimal n = decimal m) : n = m := by
  rw [← digitsValue_decimal n, ← digitsValue_decimal m, h]

theorem takeWhile_decimal (n : Nat) : (decimal n).takeWhile isDigit = decimal n :=
  List.takeWhile_eq_self_iff.mpr fun _ hb => isDigit_of_mem_decimal hb

/-- A decimal text starts with a digit. -/
theorem head_decimal (n : Nat) : ∃ d rest, decimal n = d :: rest ∧ isDigit d = true := by
  cases h : decimal n with
  | nil => exact absurd h (decimal_ne_nil n)
  | cons d rest => exact ⟨d, rest, rfl, isDigit_of_mem_decimal (n := n) (by rw [h]; simp)⟩

theorem fromChars_decimal (n : Nat) : fromChars (decimal n) = some (n : Int) := by
  obtain ⟨d, rest, hd, hdigit⟩ := head_decimal n
  have hminus : (decimal n).head? ≠ some 45 := by
    rw [hd, List.head?_cons]
    intro h
    rw [Option.some.inj h] at hdigit
    exact absurd hdigit (by decide)
  unfold fromChars
  rw [if_neg hminus, takeWhile_decimal, if_neg (decimal_ne_nil n), digitsValue_decimal]

theorem not_isSpace_of_isDigit {c : UInt8} (h : isDigit c = true) : isSpace c = false := by
  cases hs : isSpace c with
  | false => rfl
  | true =>
    simp only [isSpace, decide_eq_true_eq] at hs
    rcases hs with rfl | rfl | rfl | rfl | rfl | rfl <;> exact absurd h (by decide)

theorem trimStringView_of_noSpace {s : Data} (h : ∀ b ∈ s, isSpace b = false) :
    trimStringView s = s := by
  have hfront : s.dropWhile isSpace = s := by
    cases s with
    | nil => rfl
    | cons b s => rw [List.dropWhile_cons_of_neg (by simp [h b List.mem_cons_self])]
  unfold trimStringView
  rw [hfront, List.rdropWhile_eq_self_iff]
  intro hne
  simp [h _ (List.getLast_mem hne)]

theorem trimStringView_decimal (n : Nat) : trimStringView (decimal n) = decimal n :=
  trimStringView_of_noSpace fun _ hb => not_isSpace_of_isDigit (isDigit_of_mem_decimal hb)

/-- **`LocaleIndependentAtoi` reads a decimal text in its range as the number.** -/
theorem atoi_decimal {lo hi : Int} {n : Nat} (hlo : lo ≤ 0) (hhi : (n : Int) ≤ hi) :
    localeIndependentAtoi lo hi (decimal n) = n := by
  obtain ⟨d, rest, hd, hdigit⟩ := head_decimal n
  have hplus : (decimal n).head? ≠ some 43 := by
    rw [hd, List.head?_cons]
    intro h
    rw [Option.some.inj h] at hdigit
    exact absurd hdigit (by decide)
  unfold localeIndependentAtoi
  rw [trimStringView_decimal, if_neg hplus, fromChars_decimal, saturate]
  omega

/-! ## 2. The options that are registered -/

/-- What `SetupHelpOptions`, `AddLoggingArgs`, `SetupChainParamsBaseOptions` and `AddWalletOptions`
    register, by name. -/
def sharedArgs : List String :=
  ["help", "h", "?", "debuglogfile", "debug", "debugexclude", "logips", "loglevel",
   "logtimestamps", "logthreadnames", "logsourcelocations", "logtimemicros", "loglevelalways",
   "logratelimit", "printtoconsole", "shrinkdebugfile", "chain", "regtest",
   "testactivationheight", "testnet", "testnet4", "vbparams", "signet", "signetchallenge",
   "signetseednode", "addresstype", "avoidpartialspends", "changetype", "consolidatefeerate",
   "disablewallet", "discardfee", "fallbackfee", "keypool", "maxapsfee", "maxtxfee", "mintxfee",
   "spendzeroconfchange", "txconfirmtarget", "wallet", "walletbroadcast", "walletdir",
   "walletnotify", "walletrbf", "unsafesqlitesync", "walletrejectlongchains", "walletcrosschain"]

/-- What `SetupServerArgs` registers itself. -/
def serverArgs : List String :=
  ["help-debug", "version", "alertnotify", "assumevalid", "blocksdir", "blocksxor", "fastprune",
   "blocknotify", "blockreconstructionextratxn", "blocksonly", "coinstatsindex", "conf",
   "datadir", "dbbatchsize", "dbcache", "includeconf", "allowignoredconf", "loadblock",
   "maxmempool", "mempoolexpiry", "minimumchainwork", "par", "persistmempool", "persistmempoolv1",
   "pid", "prune", "reindex", "reindex-chainstate", "settings", "startupnotify", "shutdownnotify",
   "txindex", "txospenderindex", "blockfilterindex", "addnode", "asmap", "bantime", "bind",
   "cjdnsreachable", "connect", "discover", "dns", "dnsseed", "externalip", "fixedseeds",
   "forcednsseed", "listen", "listenonion", "maxconnections", "maxreceivebuffer", "maxsendbuffer",
   "maxuploadtarget", "onion", "i2psam", "i2pacceptincoming", "onlynet", "v2transport",
   "peerbloomfilters", "peerblockfilters", "txreconciliation", "port", "proxy", "proxyrandomize",
   "seednode", "networkactive", "timeout", "peertimeout", "torcontrol", "torpassword", "natpmp",
   "whitebind", "whitelist", "zmqpubhashblock", "zmqpubhashtx", "zmqpubrawblock", "zmqpubrawtx",
   "zmqpubsequence", "zmqpubhashblockhwm", "zmqpubhashtxhwm", "zmqpubrawblockhwm",
   "zmqpubrawtxhwm", "zmqpubsequencehwm", "checkblocks", "checklevel", "checkblockindex",
   "checkaddrman", "checkmempool", "checkpoints", "deprecatedrpc", "stopafterblockimport",
   "stopatheight", "limitancestorcount", "limitancestorsize", "limitdescendantsize",
   "limitdescendantcount", "test", "limitclustercount", "limitclustersize", "capturemessages",
   "mocktime", "maxsigcachesize", "maxtipage", "printpriority", "uacomment", "acceptnonstdtxn",
   "incrementalrelayfee", "dustrelayfee", "acceptstalefeeestimates", "bytespersigop",
   "datacarrier", "datacarriersize", "permitbaremultisig", "minrelaytxfee", "privatebroadcast",
   "whitelistforcerelay", "whitelistrelay", "blockmaxweight", "blockreservedweight",
   "blockmintxfee", "blockversion", "rest", "rpcallowip", "rpcauth", "rpcbind", "rpcdoccheck",
   "rpccookiefile", "rpccookieperms", "rpcpassword", "rpcport", "rpcservertimeout", "rpcthreads",
   "rpcuser", "rpcwhitelist", "rpcwhitelistdefault", "rpcworkqueue", "server", "daemon",
   "daemonwait", "dbcrashratio", "forcecompactdb", "choosedatadir", "lang", "min",
   "resetguisettings", "splash", "uiplatform"]

/-- The flags of an option that are looked at when it is parsed. -/
structure ArgFlags where
  disallowNegation : Bool
  disallowElision : Bool

/-- `GetArgFlags`. -/
def getArgFlags (name : Data) : Option ArgFlags :=
  let isIn (names : List String) : Bool := names.any fun n => utf8 n = name
  if isIn sharedArgs || isIn serverArgs then
    some {
      disallowNegation := isIn ["datadir", "loglevel", "signetchallenge", "signetseednode"]
      disallowElision := isIn ["loglevel", "proxy"] }
  else none

/-- Every option as if it were registered, without a restriction. -/
def anyOption (_ : Data) : Option ArgFlags := some ⟨false, false⟩

/-! ## 3. The loop over the arguments -/

/-- `InterpretBool`; an `int` is of 32 bits. -/
def interpretBool (value : Data) : Bool :=
  value = [] ∨ localeIndependentAtoi (-2147483648) 2147483647 value ≠ 0

/-- `KeyInfo`. -/
structure KeyInfo where
  name : Data
  sectionName : Data
  negated : Bool
  deriving DecidableEq

/-- `InterpretKey`: the section ends at the first dot; `no` before the name negates. -/
def interpretKey (key : Data) : KeyInfo :=
  let sectionName := if 46 ∈ key then key.takeWhile (· ≠ 46) else []
  let key := if 46 ∈ key then key.drop (sectionName.length + 1) else key
  if (utf8 "no").isPrefixOf key then ⟨key.drop 2, sectionName, true⟩ else ⟨key, sectionName, false⟩

/-- `SettingsValue`, as far as the command line makes one. -/
inductive SettingsValue where
  | bool (value : Bool)
  | text (value : Data)
  deriving DecidableEq

/-- `InterpretValue`: a negated option is false, or true if its value is false; an option without a
    value has the empty text. Some options may not be negated, and some need a value. -/
def interpretValue (key : KeyInfo) (value : Option Data) (flags : ArgFlags) :
    Option SettingsValue :=
  if key.negated then
    if flags.disallowNegation then none else some (.bool (value.any fun v => !interpretBool v))
  else if value.isNone && flags.disallowElision then none
  else some (.text (value.getD []))

/-- `Settings::command_line_options`, the values of an option in the order given. -/
abbrev Settings := List (Data × SettingsValue)

/-- The body of the loop of `ParseParameters` on one argument that is neither skipped nor `-`. What
    is no option ends the start, and so do one that is not registered and a section on the command
    line. -/
def parseParameter (flagsOf : Data → Option ArgFlags) (arg : Data) : Option (Data × SettingsValue) :=
  let key := arg.takeWhile (· ≠ 61)
  let value := if 61 ∈ arg then some (arg.drop (key.length + 1)) else none
  if key.head? ≠ some 45 then none
  else
    -- `--foo` is `-foo`
    let key := if key.tail.head? = some 45 then key.tail else key
    let info := interpretKey key.tail
    (flagsOf info.name).bind fun flags =>
      if info.sectionName ≠ [] then none
      else (interpretValue info value flags).map fun value => (info.name, value)

/-- The loop of `ParseParameters`; an argument is the C string made of its bytes. -/
def parseArguments (flagsOf : Data → Option ArgFlags) : List Data → Option Settings
  | [] => some []
  | arg :: rest =>
    let arg := cString arg
    if (utf8 "-psn_").isPrefixOf arg then parseArguments flagsOf rest
    else if arg = utf8 "-" then some []
    else (parseParameter flagsOf arg).bind fun setting =>
      (parseArguments flagsOf rest).map (setting :: ·)

/-- A key that says nothing but its name: without a dot, an equals sign or a NUL, and read neither
    as negated nor as a process serial number. -/
def plainKey (key : Data) : Bool :=
  key ≠ [] ∧ 0 ∉ key ∧ 61 ∉ key ∧ 46 ∉ key ∧ key.head? ≠ some 45 ∧
    ¬ (utf8 "no").isPrefixOf key ∧ ¬ (utf8 "psn_").isPrefixOf key

/-- The argument `-key` or `-key=value`. -/
def argument (key : Data) (value : Option Data) : Data :=
  45 :: key ++ value.elim [] (61 :: ·)

section Plain

variable {flagsOf : Data → Option ArgFlags} {key : Data} (hkey : plainKey key = true)
include hkey

theorem cString_argument (value : Option Data) :
    cString (argument key value) = argument key (value.map cString) := by
  simp only [plainKey, decide_eq_true_eq] at hkey
  obtain ⟨_, hnul, _⟩ := hkey
  have hkeep : ∀ b ∈ 45 :: key, decide (b ≠ 0) = true := by
    intro b hb
    rcases List.mem_cons.mp hb with rfl | hb
    · decide
    · exact decide_eq_true fun h => hnul (h ▸ hb)
  unfold cString argument
  rw [List.takeWhile_append_of_pos hkeep]
  cases value with
  | none => rfl
  | some v => simp

/-- What stands before the first equals sign of an argument. -/
theorem takeWhile_argument (value : Option Data) :
    (argument key value).takeWhile (· ≠ 61) = 45 :: key := by
  simp only [plainKey, decide_eq_true_eq] at hkey
  obtain ⟨_, _, hequals, _⟩ := hkey
  have hkeep : ∀ b ∈ 45 :: key, decide (b ≠ 61) = true := by
    intro b hb
    rcases List.mem_cons.mp hb with rfl | hb
    · decide
    · exact decide_eq_true fun h => hequals (h ▸ hb)
  unfold argument
  rw [List.takeWhile_append_of_pos hkeep]
  cases value <;> simp

/-- What stands after it. -/
theorem drop_argument (value : Option Data) :
    (if 61 ∈ argument key value then some ((argument key value).drop ((45 :: key).length + 1))
      else none) = value := by
  simp only [plainKey, decide_eq_true_eq] at hkey
  obtain ⟨_, _, hequals, _⟩ := hkey
  cases value with
  | none =>
    rw [if_neg]
    simpa [argument] using hequals
  | some v =>
    rw [if_pos (by simp [argument])]
    simp [argument]

/-- The body of the loop on an argument with a plain key. -/
theorem parseParameter_argument (value : Option Data) :
    parseParameter flagsOf (argument key value) = (flagsOf key).bind fun flags =>
      if value.isNone && flags.disallowElision then none
      else some (key, .text (value.getD [])) := by
  have hname := takeWhile_argument hkey value
  have hvalue := drop_argument hkey value
  simp only [plainKey, decide_eq_true_eq] at hkey
  obtain ⟨_, _, _, hdot, hdash, hno, _⟩ := hkey
  have hinfo : interpretKey key = ⟨key, [], false⟩ := by
    simp only [interpretKey, if_neg hdot, if_neg hno]
  simp only [parseParameter, hname, hvalue, List.head?_cons, List.tail_cons, if_neg hdash, hinfo]
  rw [if_neg (by simp)]
  refine congrArg _ (funext fun flags => ?_)
  rw [if_neg (by simp), interpretValue, if_neg (by simp)]
  split <;> rfl

/-- Such an argument is neither skipped nor the end of the arguments. -/
theorem parseArguments_cons (value : Option Data) (rest : List Data) :
    parseArguments flagsOf (argument key value :: rest) =
      (parseParameter flagsOf (argument key (value.map cString))).bind fun setting =>
        (parseArguments flagsOf rest).map (setting :: ·) := by
  have hstring := cString_argument hkey value
  simp only [plainKey, decide_eq_true_eq] at hkey
  obtain ⟨hne, _, _, _, _, _, hpsn⟩ := hkey
  have hskip : ¬ (utf8 "-psn_").isPrefixOf (argument key (value.map cString)) := by
    intro h
    have hpre : utf8 "psn_" <+: key ++ (value.map cString).elim [] (61 :: ·) :=
      (List.cons_prefix_cons.mp (List.isPrefixOf_iff_prefix.mp h)).2
    rcases List.prefix_or_prefix_of_prefix hpre (List.prefix_append key _) with hlong | ⟨t, ht⟩
    · exact hpsn (List.isPrefixOf_iff_prefix.mpr hlong)
    · -- what the key leaves of the prefix would start with the equals sign
      rw [← ht] at hpre
      have hrest := (List.prefix_append_right_inj key).mp hpre
      cases t with
      | nil =>
        rw [List.append_nil] at ht
        exact hpsn (List.isPrefixOf_iff_prefix.mpr (ht ▸ List.prefix_rfl))
      | cons b t =>
        cases value with
        | none => exact absurd hrest (by simp)
        | some v =>
          have hb : b = 61 := (List.cons_prefix_cons.mp hrest).1
          have hmem : 61 ∈ utf8 "psn_" := by rw [← ht, hb]; simp
          exact absurd hmem (by decide)
  have hstdin : argument key (value.map cString) ≠ utf8 "-" := by
    intro h
    have htail : key ++ _ = [] := (List.cons.inj h).2
    exact hne (List.append_eq_nil_iff.mp htail).1
  simp only [parseArguments, hstring, if_neg hskip, if_neg hstdin]

/-- **An argument for a registered option is one more setting** before those of the arguments after
    it. -/
theorem parseArguments_plain {flags : ArgFlags} (hflags : flagsOf key = some flags)
    {value : Option Data} (hvalue : flags.disallowElision = true → value ≠ none) (rest : List Data) :
    parseArguments flagsOf (argument key value :: rest) =
      (parseArguments flagsOf rest).map ((key, .text ((value.map cString).getD [])) :: ·) := by
  have hgiven : ((value.map cString).isNone && flags.disallowElision) = false := by
    cases helision : flags.disallowElision with
    | false => exact Bool.and_false _
    | true =>
      cases value with
      | none => exact absurd rfl (hvalue helision)
      | some v => rfl
  rw [parseArguments_cons hkey, parseParameter_argument hkey, hflags, Option.bind_some, hgiven]
  rfl

/-- **One for an option that is not registered is refused**, with all the others. -/
theorem parseArguments_unregistered (hflags : flagsOf key = none) (value : Option Data)
    (rest : List Data) : parseArguments flagsOf (argument key value :: rest) = none := by
  rw [parseArguments_cons hkey, parseParameter_argument hkey, hflags]
  rfl

/-- What is refused after such an argument is refused with it. -/
theorem parseArguments_cons_none {rest : List Data} (hrest : parseArguments flagsOf rest = none)
    (value : Option Data) : parseArguments flagsOf (argument key value :: rest) = none := by
  rw [parseArguments_cons hkey, hrest]
  cases parseParameter flagsOf (argument key (value.map cString)) <;> rfl

end Plain

/-! ## 4. Reading a setting -/

/-- The values the command line gives an option. -/
def Settings.values (settings : Settings) (name : Data) : List SettingsValue :=
  (settings.filter fun setting => setting.1 = name).map Prod.snd

/-- `GetSetting`: the last value. The negation that is last leaves the span of values empty, and the
    answer is false then, which is that value again. -/
def Settings.getSetting (settings : Settings) (name : Data) : Option SettingsValue :=
  (settings.values name).getLast?

/-- `SettingToString`. -/
def SettingsValue.toText : SettingsValue → Data
  | .bool false => utf8 "0"
  | .bool true => utf8 "1"
  | .text value => value

/-- `SettingToBool`. -/
def SettingsValue.toBool : SettingsValue → Bool
  | .bool value => value
  | .text value => interpretBool value

/-- `SettingTo<int64_t>`. -/
def SettingsValue.toInt : SettingsValue → Int
  | .bool value => if value then 1 else 0
  | .text value => localeIndependentAtoi (-9223372036854775808) 9223372036854775807 value

/-- `ArgsManager::GetArg`. -/
def Settings.getArg (settings : Settings) (name : Data) : Option Data :=
  (settings.getSetting name).map SettingsValue.toText

/-- `ArgsManager::GetBoolArg`. -/
def Settings.getBoolArg (settings : Settings) (name : Data) (fallback : Bool) : Bool :=
  ((settings.getSetting name).map SettingsValue.toBool).getD fallback

/-- `ArgsManager::GetIntArg`. -/
def Settings.getIntArg (settings : Settings) (name : Data) (fallback : Int) : Int :=
  ((settings.getSetting name).map SettingsValue.toInt).getD fallback

/-- `ArgsManager::GetArgs`: `SettingsSpan` begins after the last negation. -/
def Settings.getArgs (settings : Settings) (name : Data) : List Data :=
  ((settings.values name).rtakeWhile (· ≠ .bool false)).map SettingsValue.toText

/-! ## 5. Parsing the command line -/

/-- `ParseParameters`: after the loop, `-includeconf` is refused, unless it is negated. -/
def parseParameters (args : List Data) : Option Settings :=
  (parseArguments getArgFlags args).bind fun settings =>
    if settings.getArgs (utf8 "includeconf") = [] then some settings else none

end SwiftBitcoinKernel.Core
