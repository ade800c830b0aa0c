/-
  File:      SwiftBitcoinKernel/Config/Validation.lean
  Subject:   `BitcoinConfig.validate()` and the effective values of the options.

  * `ConfigError`, `ConfigWarning`, `rules`, `validate` -- the rules, read over the flags recorded;
  * `lastValue`, `effective` -- the last value the arguments give an option, and the flags those
    values stand for;
  * `everOn`, `lastOn` -- the same two readings of a sequence of calls; `contains_build`,
    `effective_build` -- what `validate()` reads and what is effective are these;
  * `OnceOn`, `Overridden` -- an option that some call turned on, and one that the last call on it
    turned off again; `OverridesHarmless` -- check by check, which options may not be overridden;
  * `validate_effective_iff` -- the verdict is that on the effective values just if the overridden
    options are harmless; `validate_effective_of_kept` -- so it is if no option that was turned on
    is turned off later;
  * `validate_silent` -- a call that turns an option off leaves the verdict as it was;
    `validate_overridden` -- a transaction index turned on, then off, still clashes with pruning.
-/
import SwiftBitcoinKernel.Config.Builder

namespace SwiftBitcoinKernel

open Logic

/-! ## 1. The rules -/

/-- `ConfigError`, in the order of the checks. -/
inductive ConfigError where
  | txIndexWithPrune | coinStatsIndexWithPrune | peerBlockFiltersWithoutIndex
  deriving DecidableEq

def ConfigError.all : List ConfigError :=
  [.txIndexWithPrune, .coinStatsIndexWithPrune, .peerBlockFiltersWithoutIndex]

/-- The condition each error is thrown on. -/
def ConfigError.holds (contains : ConfigFlag → Bool) : ConfigError → Bool
  | .txIndexWithPrune => contains .txIndex && contains .pruneSize
  | .coinStatsIndexWithPrune => contains .coinStatsIndex && contains .pruneSize
  | .peerBlockFiltersWithoutIndex => contains .peerBlockFilters && !contains .blockFilterIndexAll

/-- `ConfigWarning`, in the order of the checks. -/
inductive ConfigWarning where
  | rpcBindWithoutAllowIP | serverDisabledWithRPCOptions | blocksOnlyWithMaxMempool
  | missingRPCAuth | connectDisablesPeerDiscovery | walletOptionWithDisableWallet
  | maxUploadTargetWithListen
  deriving DecidableEq

def ConfigWarning.all : List ConfigWarning :=
  [.rpcBindWithoutAllowIP, .serverDisabledWithRPCOptions, .blocksOnlyWithMaxMempool,
   .missingRPCAuth, .connectDisablesPeerDiscovery, .walletOptionWithDisableWallet,
   .maxUploadTargetWithListen]

/-- The condition each warning is given on. -/
def ConfigWarning.holds (contains : ConfigFlag → Bool) : ConfigWarning → Bool
  | .rpcBindWithoutAllowIP => contains .rpcBind && !contains .rpcAllowIP
  | .serverDisabledWithRPCOptions =>
    !contains .server &&
      (contains .rpcBind || contains .rpcAuth || contains .rpcAllowIP || contains .rpcCookieFile)
  | .blocksOnlyWithMaxMempool => contains .blocksOnly && contains .maxMempool
  | .missingRPCAuth => contains .server && !contains .rpcAuth && !contains .rpcCookieFile
  | .connectDisablesPeerDiscovery => contains .connect
  | .walletOptionWithDisableWallet => contains .disableWallet && contains .walletOption
  | .maxUploadTargetWithListen => contains .maxUploadTarget && contains .listen

/-- The body of `validate()`, for any reading of the flags: the first error whose condition holds is
    thrown, or else the warnings are returned. -/
def rules (contains : ConfigFlag → Bool) : Except ConfigError (List ConfigWarning) :=
  verdict (ConfigError.holds contains) (ConfigWarning.all.filter (ConfigWarning.holds contains))
    ConfigError.all

/-- `flags.contains(_:)`. -/
def BitcoinConfig.contains (config : BitcoinConfig) (flag : ConfigFlag) : Bool := flag ∈ config.flags

/-- `validate()`. -/
def BitcoinConfig.validate (config : BitcoinConfig) : Except ConfigError (List ConfigWarning) :=
  rules config.contains

/-! ## 2. The effective values -/

/-- The value an argument gives the option with a key: what stands after the equals sign. -/
def valueOf (key arg : Data) : Option Data :=
  if arg.takeWhile (· ≠ 61) = 45 :: key then
    if 61 ∈ arg then some (arg.drop ((45 :: key).length + 1)) else none
  else none

/-- The value of the last argument `-key=value`. -/
def lastValue (args : List Data) (key : String) : Option Data :=
  (args.filterMap (valueOf (utf8 key))).getLast?

/-- The last value of an option is `1`. -/
def turnedOn (args : List Data) (key : String) : Bool := lastValue args key = some (utf8 "1")

/-- An option has a value. -/
def given (args : List Data) (key : String) : Bool := (lastValue args key).isSome

/-- The wallet's options. -/
def walletOptions : List OptionName :=
  [.uint .keypool, .text .wallet, .text .walletDir, .text .walletNotify, .bool .walletBroadcast,
   .bool .walletRbf, .bool .spendZeroConfChange, .text .addressType, .text .changeType,
   .text .minTxFee, .text .maxTxFee, .uint .txConfirmTarget, .bool .avoidPartialSpends,
   .text .fallbackFee, .text .discardFee]

/-- The flags that the last values in some arguments stand for. -/
def effective (args : List Data) : ConfigFlag → Bool
  | .txIndex => turnedOn args "txindex"
  | .pruneSize => (lastValue args "prune").any fun v => v ≠ utf8 "0" ∧ v ≠ utf8 "1"
  | .coinStatsIndex => turnedOn args "coinstatsindex"
  | .server => turnedOn args "server"
  | .rpcBind => given args "rpcbind"
  | .rpcAllowIP => given args "rpcallowip"
  | .rpcAuth => given args "rpcauth"
  | .blocksOnly => turnedOn args "blocksonly"
  | .maxMempool => given args "maxmempool"
  | .disableWallet => turnedOn args "disablewallet"
  | .walletOption => walletOptions.any fun n => given args n.key
  | .connect => given args "connect"
  | .peerBlockFilters => turnedOn args "peerblockfilters"
  | .blockFilterIndexAll => turnedOn args "blockfilterindex"
  | .listen => turnedOn args "listen"
  | .maxUploadTarget => (lastValue args "maxuploadtarget").any fun v => v ≠ utf8 "0"
  | .rpcCookieFile => given args "rpccookiefile"

/-! ## 3. The two readings of the calls -/

/-- Some call turned it on. -/
def everOn (calls : List ConfigCall) (f : ConfigFlag) : Bool := calls.any fun c => c.flag = some f

/-- Some call that is the last on its option turned it on. -/
def lastOn (calls : List ConfigCall) (f : ConfigFlag) : Bool :=
  calls.any fun c => lastCall c.name calls = some c ∧ c.flag = some f

theorem contains_build (network : Network) (calls : List ConfigCall) :
    (BitcoinConfig.build network calls).contains = everOn calls := by
  funext f
  rw [Bool.eq_iff_iff]
  simp [BitcoinConfig.contains, BitcoinConfig.mem_build_flags, everOn]

/-- What is on at the end was turned on. -/
theorem everOn_of_lastOn {calls : List ConfigCall} {f : ConfigFlag} (h : lastOn calls f = true) :
    everOn calls f = true := by
  simp only [lastOn, everOn, List.any_eq_true, decide_eq_true_eq] at h ⊢
  obtain ⟨c, hc, _, hflag⟩ := h
  exact ⟨c, hc, hflag⟩

/-! ## 4. What is effective -/

theorem valueOf_argument (n m : OptionName) (value : Option Data) :
    valueOf (utf8 n.key) (Core.argument (utf8 m.key) value) = if m = n then value else none := by
  unfold valueOf
  rw [Core.takeWhile_argument m.plainKey_key value]
  by_cases h : m = n
  · subst h
    rw [if_pos rfl, if_pos rfl]
    exact Core.drop_argument m.plainKey_key value
  · rw [if_neg h, if_neg]
    intro hkey
    exact h (OptionName.key_injective (List.cons.inj hkey).2)

/-- Every option but two has a value in each of its calls. -/
theorem value_eq_some {c : ConfigCall} (h : c.name ≠ .reindex) (h' : c.name ≠ .reindexChainstate) :
    c.value = some (c.value.getD []) := by
  cases c with
  | reindex => exact absurd rfl h
  | reindexChainstate => exact absurd rfl h'
  | _ => rfl

/-- **The last value in the arguments is that of the last call.** -/
theorem lastValue_build (network : Network) (calls : List ConfigCall) {n : OptionName}
    (h : n ≠ .reindex) (h' : n ≠ .reindexChainstate) :
    lastValue (BitcoinConfig.build network calls).args n.key =
      (lastCall n calls).map fun c => c.value.getD [] := by
  have hnetwork : (BitcoinConfig.init network).args.filterMap (valueOf (utf8 n.key)) = [] := by
    unfold BitcoinConfig.init
    cases hf : network.flag with
    | none => rfl
    | some flag =>
      have hne : ¬ 45 :: utf8 flag = 45 :: utf8 n.key := by
        intro heq
        exact n.key_ne_flag hf (List.cons.inj heq).2.symm
      have hvalue : valueOf (utf8 n.key) (Core.argument (utf8 flag) none) = none := by
        rw [valueOf, Core.takeWhile_argument (Network.plainKey_flag hf), if_neg hne]
      simp [hvalue]
  have hcalls : (calls.map fun c => Core.argument (utf8 c.name.key) c.value).filterMap
      (valueOf (utf8 n.key)) = (calls.filter (·.name = n)).map fun c => c.value.getD [] := by
    induction calls with
    | nil => rfl
    | cons c calls ih =>
      rw [List.map_cons, List.filterMap_cons, valueOf_argument, ih]
      by_cases hc : c.name = n
      · have hvalue := value_eq_some (c := c) (hc ▸ h) (hc ▸ h')
        rw [if_pos hc, List.filter_cons_of_pos (by simpa using hc), hvalue]
        rfl
      · rw [if_neg hc, List.filter_cons_of_neg (by simpa using hc)]
  unfold lastValue lastCall lastBy
  rw [BitcoinConfig.build_args, List.filterMap_append, hnetwork, List.nil_append, hcalls,
    List.getLast?_map]

/-- When the calls on an option record its flag. -/
def OptionName.rule : OptionName → FlagRule
  | .bool option => option.rule
  | .uint option => option.rule
  | .text option => option.rule
  | .prune => .whenOn .pruneSize
  | .blockFilterIndex => .whenOn .blockFilterIndexAll
  | _ => .never

/-- A call turns its option on. -/
def ConfigCall.isOn : ConfigCall → Bool
  | .bool _ enabled => enabled
  | .uint _ value => 0 < value
  | .prune (.size _ _) | .blockFilterIndex .all | .text _ _ => true
  | _ => false

theorem ConfigCall.flag_eq (c : ConfigCall) : c.flag = c.name.rule.flag c.isOn := by
  cases c with
  | prune mode => cases mode <;> rfl
  | blockFilterIndex mode => cases mode <;> rfl
  | _ => rfl

/-- The options that record a flag. -/
def ConfigFlag.options : ConfigFlag → List OptionName
  | .txIndex => [.bool .txIndex]
  | .pruneSize => [.prune]
  | .coinStatsIndex => [.bool .coinStatsIndex]
  | .server => [.bool .server]
  | .rpcBind => [.text .rpcBind]
  | .rpcAllowIP => [.text .rpcAllowIP]
  | .rpcAuth => [.text .rpcAuth]
  | .blocksOnly => [.bool .blocksOnly]
  | .maxMempool => [.uint .maxMempool]
  | .disableWallet => [.bool .disableWallet]
  | .walletOption => walletOptions
  | .connect => [.text .connect]
  | .peerBlockFilters => [.bool .peerBlockFilters]
  | .blockFilterIndexAll => [.blockFilterIndex]
  | .listen => [.bool .listen]
  | .maxUploadTarget => [.uint .maxUploadTarget]
  | .rpcCookieFile => [.text .rpcCookieFile]

/-- The flag of a rule. -/
def FlagRule.target : FlagRule → Option ConfigFlag
  | .never => none
  | .whenOn flag | .always flag => some flag

theorem FlagRule.target_of_flag {rule : FlagRule} {isOn : Bool} {f : ConfigFlag}
    (h : rule.flag isOn = some f) : rule.target = some f := by
  cases rule with
  | never => cases h
  | whenOn g =>
    cases isOn with
    | false => cases h
    | true => exact h
  | always g => exact h

theorem name_mem_options {c : ConfigCall} {f : ConfigFlag} (h : c.flag = some f) :
    c.name ∈ f.options := by
  have hall : ∀ n ∈ OptionName.all, ∀ f ∈ n.rule.target, n ∈ f.options := by decide +kernel
  rw [c.flag_eq] at h
  exact hall c.name c.name.mem_all f (FlagRule.target_of_flag h)

/-- A flag is on at the end just if the last call on one of its options recorded it. -/
theorem lastOn_iff {calls : List ConfigCall} {f : ConfigFlag} :
    lastOn calls f = true ↔ ∃ n ∈ f.options, ∃ c, lastCall n calls = some c ∧ c.flag = some f := by
  simp only [lastOn, List.any_eq_true, decide_eq_true_eq]
  constructor
  · intro h
    obtain ⟨c, _, hlast, hflag⟩ := h
    exact ⟨c.name, name_mem_options hflag, c, hlast, hflag⟩
  · intro h
    obtain ⟨n, _, c, hlast, hflag⟩ := h
    obtain ⟨hc, hname⟩ := lastBy_eq_some hlast
    refine ⟨c, hc, ?_, hflag⟩
    rw [hname]
    exact hlast

section Effective

variable (network : Network) (calls : List ConfigCall)

/-- A test of the last value in the arguments is one of the last call. -/
theorem any_lastValue {n : OptionName} (h : n ≠ .reindex) (h' : n ≠ .reindexChainstate)
    (p : Data → Bool) :
    (lastValue (BitcoinConfig.build network calls).args n.key).any p = true ↔
      ∃ c, lastCall n calls = some c ∧ p (c.value.getD []) = true := by
  rw [lastValue_build network calls h h']
  cases lastCall n calls <;> simp

/-- A flag that one option records is effective just if its last call recorded it, where the test of
    the value tells that of every call. -/
theorem any_lastValue_iff {n : OptionName} {f : ConfigFlag} (hf : f.options = [n])
    (h : n ≠ .reindex) (h' : n ≠ .reindexChainstate) {p : Data → Bool}
    (hp : ∀ c : ConfigCall, c.name = n → (p (c.value.getD []) = true ↔ c.flag = some f)) :
    (lastValue (BitcoinConfig.build network calls).args n.key).any p = true ↔
      lastOn calls f = true := by
  rw [any_lastValue network calls h h', lastOn_iff, hf]
  simp only [List.mem_singleton, exists_eq_left]
  refine exists_congr fun c => and_congr_right fun hlast => ?_
  exact hp c (lastBy_eq_some hlast).2

theorem turnedOn_eq (args : List Data) (key : String) :
    turnedOn args key = (lastValue args key).any fun v => v = utf8 "1" := by
  unfold turnedOn
  cases lastValue args key <;> simp

/-- A switch, by its last value. -/
theorem turnedOn_build (o : BoolOption) {f : ConfigFlag} (hf : f.options = [.bool o])
    (hrule : o.rule = .whenOn f) :
    turnedOn (BitcoinConfig.build network calls).args o.key = true ↔ lastOn calls f = true := by
  rw [turnedOn_eq]
  refine any_lastValue_iff network calls hf (by simp) (by simp) ?_
  intro c hc
  obtain ⟨enabled, rfl⟩ := name_bool hc
  have hzero : utf8 "0" ≠ utf8 "1" := by decide
  cases enabled <;> simp [ConfigCall.value, ConfigCall.flag, hrule, FlagRule.flag, boolText, hzero]

/-- An option whose every call records its flag, by its presence. -/
theorem given_build {n : OptionName} {f : ConfigFlag} (h : n ≠ .reindex)
    (h' : n ≠ .reindexChainstate) (hrule : n.rule.flag false = some f) :
    given (BitcoinConfig.build network calls).args n.key = true ↔
      ∃ c, lastCall n calls = some c ∧ c.flag = some f := by
  have hgiven := any_lastValue network calls h h' fun _ => true
  have hisSome : given (BitcoinConfig.build network calls).args n.key =
      (lastValue (BitcoinConfig.build network calls).args n.key).any fun _ => true := by
    unfold given
    cases lastValue (BitcoinConfig.build network calls).args n.key <;> rfl
  rw [hisSome, hgiven]
  refine exists_congr fun c => and_congr_right fun hlast => ?_
  have halways : n.rule = .always f := by
    cases hn : n.rule <;> simp_all [FlagRule.flag]
  have hname : c.name = n := (lastBy_eq_some hlast).2
  simp [c.flag_eq, hname, halways, FlagRule.flag]

theorem given_build_single (n : OptionName) {f : ConfigFlag} (hf : f.options = [n])
    (h : n ≠ .reindex) (h' : n ≠ .reindexChainstate) (hrule : n.rule.flag false = some f) :
    given (BitcoinConfig.build network calls).args n.key = true ↔ lastOn calls f = true := by
  rw [given_build network calls h h' hrule, lastOn_iff, hf]
  simp

theorem pruneSize_build :
    effective (BitcoinConfig.build network calls).args .pruneSize = true ↔
      lastOn calls .pruneSize = true := by
  refine any_lastValue_iff network calls (n := .prune) rfl (by simp) (by simp) ?_
  intro c hc
  obtain ⟨mode, rfl⟩ := name_prune hc
  cases mode with
  | disabled => decide
  | manual => decide
  | size mb valid =>
    have hne : ∀ m < 550, decimal mb ≠ decimal m := by
      intro m hm h
      have hmb : mb = m := Core.decimal_injective h
      omega
    have h0 : decimal mb ≠ utf8 "0" := hne 0 (by omega)
    have h1 : decimal mb ≠ utf8 "1" := hne 1 (by omega)
    simp [ConfigCall.value, ConfigCall.flag, PruneMode.rawValue, h0, h1]

theorem blockFilterIndexAll_build :
    effective (BitcoinConfig.build network calls).args .blockFilterIndexAll = true ↔
      lastOn calls .blockFilterIndexAll = true := by
  have heq := turnedOn_eq (BitcoinConfig.build network calls).args "blockfilterindex"
  rw [effective, heq]
  refine any_lastValue_iff network calls (n := .blockFilterIndex) rfl (by simp) (by simp) ?_
  intro c hc
  obtain ⟨mode, rfl⟩ := name_blockFilterIndex hc
  cases mode <;> decide

theorem maxUploadTarget_build :
    effective (BitcoinConfig.build network calls).args .maxUploadTarget = true ↔
      lastOn calls .maxUploadTarget = true := by
  refine any_lastValue_iff network calls (n := .uint .maxUploadTarget) rfl (by simp) (by simp) ?_
  intro c hc
  cases c with
  | uint option value =>
    cases hc
    have hzero : decimal value.toNat = utf8 "0" ↔ ¬ 0 < value := by
      rw [UInt64.lt_iff_toNat_lt]
      constructor
      · intro h
        have hvalue : value.toNat = 0 := Core.decimal_injective h
        simp [hvalue]
      · intro h
        have hvalue : value.toNat = 0 := Nat.eq_zero_of_not_pos h
        rw [hvalue]
        decide
    simp [ConfigCall.value, ConfigCall.flag, UIntOption.rule, UIntOption.clamp, FlagRule.flag, hzero]
  | _ => cases hc

/-- **The effective flags are those the last calls on their options recorded.** -/
theorem effective_build :
    effective (BitcoinConfig.build network calls).args = lastOn calls := by
  funext f
  rw [Bool.eq_iff_iff]
  cases f with
  | pruneSize => exact pruneSize_build network calls
  | blockFilterIndexAll => exact blockFilterIndexAll_build network calls
  | maxUploadTarget => exact maxUploadTarget_build network calls
  | txIndex => exact turnedOn_build network calls .txIndex rfl rfl
  | coinStatsIndex => exact turnedOn_build network calls .coinStatsIndex rfl rfl
  | server => exact turnedOn_build network calls .server rfl rfl
  | blocksOnly => exact turnedOn_build network calls .blocksOnly rfl rfl
  | disableWallet => exact turnedOn_build network calls .disableWallet rfl rfl
  | peerBlockFilters => exact turnedOn_build network calls .peerBlockFilters rfl rfl
  | listen => exact turnedOn_build network calls .listen rfl rfl
  | rpcBind => exact given_build_single network calls (.text .rpcBind) rfl nofun nofun rfl
  | rpcAllowIP => exact given_build_single network calls (.text .rpcAllowIP) rfl nofun nofun rfl
  | rpcAuth => exact given_build_single network calls (.text .rpcAuth) rfl nofun nofun rfl
  | maxMempool => exact given_build_single network calls (.uint .maxMempool) rfl nofun nofun rfl
  | connect => exact given_build_single network calls (.text .connect) rfl nofun nofun rfl
  | rpcCookieFile => exact given_build_single network calls (.text .rpcCookieFile) rfl nofun nofun rfl
  | walletOption =>
    have hrule : ∀ n ∈ walletOptions, n ≠ .reindex ∧ n ≠ .reindexChainstate ∧
        n.rule.flag false = some .walletOption := by decide
    rw [effective, lastOn_iff, List.any_eq_true]
    refine exists_congr fun n => and_congr_right fun hn => ?_
    obtain ⟨h, h', hflag⟩ := hrule n hn
    exact given_build network calls h h' hflag

end Effective

/-! ## 5. Options that are overridden -/

/-- Some call turned the option on. -/
def OnceOn (calls : List ConfigCall) (n : OptionName) : Prop :=
  ∃ c ∈ calls, c.name = n ∧ c.isOn = true

/-- Some call turned the option on, and the last call on it turned it off. -/
def Overridden (calls : List ConfigCall) (n : OptionName) : Prop :=
  OnceOn calls n ∧ ∃ c, lastCall n calls = some c ∧ c.isOn = false

/-- Some call is on one of the options. -/
def Mentioned (calls : List ConfigCall) (names : List OptionName) : Prop :=
  ∃ c ∈ calls, c.name ∈ names

/-- If both options were turned on, neither is overridden. -/
def BothKept (calls : List ConfigCall) (n m : OptionName) : Prop :=
  OnceOn calls n → OnceOn calls m → ¬Overridden calls n ∧ ¬Overridden calls m

/-- Block filters that are served no longer were indexed at some time; the index of those that still
    are is not overridden. -/
def FiltersKept (calls : List ConfigCall) : Prop :=
  OnceOn calls (.bool .peerBlockFilters) →
    (Overridden calls (.bool .peerBlockFilters) → OnceOn calls .blockFilterIndex) ∧
    (¬Overridden calls (.bool .peerBlockFilters) → ¬Overridden calls .blockFilterIndex)

/-- What the warnings depend on is not overridden. -/
structure WarnedKept (calls : List ConfigCall) : Prop where
  server : ¬Overridden calls (.bool .server)
  blocksOnly : Mentioned calls [.uint .maxMempool] → ¬Overridden calls (.bool .blocksOnly)
  disableWallet : Mentioned calls walletOptions → ¬Overridden calls (.bool .disableWallet)
  maxUploadTarget : BothKept calls (.uint .maxUploadTarget) (.bool .listen)

/-- **What may not be overridden**: a condition for each error, in the order of the checks, and one
    for the warnings. A check that is not reached asks for nothing. -/
structure OverridesHarmless (calls : List ConfigCall) : Prop where
  txIndex : BothKept calls (.bool .txIndex) .prune
  coinStatsIndex : ¬(OnceOn calls (.bool .txIndex) ∧ OnceOn calls .prune) →
    BothKept calls (.bool .coinStatsIndex) .prune
  peerBlockFilters : ¬(OnceOn calls (.bool .txIndex) ∧ OnceOn calls .prune) →
    ¬(OnceOn calls (.bool .coinStatsIndex) ∧ OnceOn calls .prune) → FiltersKept calls
  warnings : ¬(OnceOn calls (.bool .txIndex) ∧ OnceOn calls .prune) →
    ¬(OnceOn calls (.bool .coinStatsIndex) ∧ OnceOn calls .prune) →
    (OnceOn calls (.bool .peerBlockFilters) → OnceOn calls .blockFilterIndex) → WarnedKept calls

/-- One option records the flag, in the calls that turn it on. -/
structure ConfigFlag.SwitchedBy (f : ConfigFlag) (n : OptionName) : Prop where
  options : f.options = [n]
  rule : n.rule = .whenOn f

section Overridden

variable {calls : List ConfigCall} {f g : ConfigFlag} {n m : OptionName}

theorem flag_eq_some_iff (h : f.SwitchedBy n) {c : ConfigCall} :
    c.flag = some f ↔ c.name = n ∧ c.isOn = true := by
  have hon : c.name = n → (c.flag = some f ↔ c.isOn = true) := by
    intro hname
    rw [c.flag_eq, hname, h.rule]
    cases c.isOn <;> simp [FlagRule.flag]
  constructor
  · intro hflag
    have hname : c.name = n := List.mem_singleton.1 (h.options ▸ name_mem_options hflag)
    exact ⟨hname, (hon hname).1 hflag⟩
  · exact fun ⟨hname, hison⟩ => (hon hname).2 hison

theorem everOn_iff (h : f.SwitchedBy n) : everOn calls f = true ↔ OnceOn calls n := by
  simp only [everOn, List.any_eq_true, decide_eq_true_eq, flag_eq_some_iff h]
  rfl

/-- An option is on at the end just if it was turned on and is not overridden. -/
theorem lastOn_iff_kept (h : f.SwitchedBy n) :
    lastOn calls f = true ↔ OnceOn calls n ∧ ¬Overridden calls n := by
  constructor
  · intro hon
    refine ⟨(everOn_iff h).1 (everOn_of_lastOn hon), ?_⟩
    rintro ⟨-, c, hlast, hoff⟩
    obtain ⟨n', hn', c', hlast', hflag⟩ := lastOn_iff.1 hon
    rw [h.options, List.mem_singleton] at hn'
    rw [hn', hlast] at hlast'
    cases hlast'
    rw [((flag_eq_some_iff h).1 hflag).2] at hoff
    cases hoff
  · rintro ⟨hon, hkept⟩
    have honce := hon
    obtain ⟨c, hc, rfl, -⟩ := hon
    obtain ⟨last, -, hname, hlast⟩ : ∃ last ∈ calls, last.name = c.name ∧
        lastCall c.name calls = some last := lastBy_of_mem hc
    refine lastOn_iff.2 ⟨c.name, by rw [h.options]; exact List.mem_singleton_self _, last, hlast, ?_⟩
    refine (flag_eq_some_iff h).2 ⟨hname, ?_⟩
    by_contra hoff
    exact hkept ⟨honce, last, hlast, eq_false_of_ne_true hoff⟩

/-- A flag that every call on its options records is never overridden. -/
theorem everOn_eq_lastOn (h : ∀ n ∈ f.options, n.rule = .always f) :
    everOn calls f = lastOn calls f := by
  refine Bool.eq_iff_iff.2 ⟨fun hon => ?_, everOn_of_lastOn⟩
  simp only [everOn, List.any_eq_true, decide_eq_true_eq] at hon
  obtain ⟨c, hc, hflag⟩ := hon
  have hmem := name_mem_options hflag
  obtain ⟨last, -, hname, hlast⟩ : ∃ last ∈ calls, last.name = c.name ∧
      lastCall c.name calls = some last := lastBy_of_mem hc
  refine lastOn_iff.2 ⟨c.name, hmem, last, hlast, ?_⟩
  rw [last.flag_eq, hname, h c.name hmem]
  rfl

theorem everOn_iff_mentioned (h : ∀ n ∈ f.options, n.rule = .always f) :
    everOn calls f = true ↔ Mentioned calls f.options := by
  simp only [everOn, List.any_eq_true, decide_eq_true_eq]
  refine exists_congr fun c => and_congr_right fun _ => ⟨name_mem_options, fun hmem => ?_⟩
  rw [c.flag_eq, h c.name hmem]
  rfl

/-! ## 6. Check by check -/

variable (calls)

theorem kept_agree (hf : f.SwitchedBy n) :
    everOn calls f = lastOn calls f ↔ ¬Overridden calls n := by
  rw [Bool.eq_iff_iff, everOn_iff hf, lastOn_iff_kept hf]
  constructor
  · intro h hoverridden
    exact (h.1 hoverridden.1).2 hoverridden
  · exact fun h => ⟨fun hon => ⟨hon, h⟩, fun hon => hon.1⟩

/-- A check that needs both of two switches. -/
theorem both_agree (hf : f.SwitchedBy n) (hg : g.SwitchedBy m) :
    (everOn calls f && everOn calls g) = (lastOn calls f && lastOn calls g) ↔
      BothKept calls n m := by
  rw [Bool.eq_iff_iff, Bool.and_eq_true, Bool.and_eq_true, everOn_iff hf, everOn_iff hg,
    lastOn_iff_kept hf, lastOn_iff_kept hg]
  constructor
  · intro h hn hm
    exact ⟨(h.1 ⟨hn, hm⟩).1.2, (h.1 ⟨hn, hm⟩).2.2⟩
  · intro h
    refine ⟨fun ⟨hn, hm⟩ => ⟨⟨hn, (h hn hm).1⟩, hm, (h hn hm).2⟩, fun ⟨hn, hm⟩ => ⟨hn.1, hm.1⟩⟩

theorem both_off (hf : f.SwitchedBy n) (hg : g.SwitchedBy m) :
    (everOn calls f && everOn calls g) = false ↔ ¬(OnceOn calls n ∧ OnceOn calls m) := by
  rw [← Bool.not_eq_true, Bool.and_eq_true, everOn_iff hf, everOn_iff hg]

/-- A check that needs a switch, and a flag that is never overridden. -/
theorem mentioned_agree (hf : f.SwitchedBy n) (hg : ∀ m ∈ g.options, m.rule = .always g) :
    (everOn calls f && everOn calls g) = (lastOn calls f && lastOn calls g) ↔
      (Mentioned calls g.options → ¬Overridden calls n) := by
  rw [← everOn_iff_mentioned hg, ← kept_agree calls hf, ← everOn_eq_lastOn hg]
  cases everOn calls g <;> simp

theorem filters_agree :
    ConfigError.peerBlockFiltersWithoutIndex.holds (everOn calls) =
        ConfigError.peerBlockFiltersWithoutIndex.holds (lastOn calls) ↔ FiltersKept calls := by
  have hpeers : ConfigFlag.peerBlockFilters.SwitchedBy (.bool .peerBlockFilters) := ⟨rfl, rfl⟩
  have hindex : ConfigFlag.blockFilterIndexAll.SwitchedBy .blockFilterIndex := ⟨rfl, rfl⟩
  have hoverridden : Overridden calls .blockFilterIndex → OnceOn calls .blockFilterIndex := And.left
  rw [ConfigError.holds, ConfigError.holds, Bool.eq_iff_iff, Bool.and_eq_true, Bool.and_eq_true,
    Bool.not_eq_true', Bool.not_eq_true', ← Bool.not_eq_true, ← Bool.not_eq_true, everOn_iff hpeers,
    everOn_iff hindex, lastOn_iff_kept hpeers, lastOn_iff_kept hindex, FiltersKept]
  tauto

theorem filters_off :
    ConfigError.peerBlockFiltersWithoutIndex.holds (everOn calls) = false ↔
      (OnceOn calls (.bool .peerBlockFilters) → OnceOn calls .blockFilterIndex) := by
  have hpeers : ConfigFlag.peerBlockFilters.SwitchedBy (.bool .peerBlockFilters) := ⟨rfl, rfl⟩
  have hindex : ConfigFlag.blockFilterIndexAll.SwitchedBy .blockFilterIndex := ⟨rfl, rfl⟩
  rw [← everOn_iff hpeers, ← everOn_iff hindex, ConfigError.holds]
  cases everOn calls .peerBlockFilters <;> simp

/-- Two warnings depend on the server, one on its being on and one on its being off: one of them
    tells that it is overridden. -/
theorem server_agree :
    ConfigWarning.serverDisabledWithRPCOptions.holds (everOn calls) =
        ConfigWarning.serverDisabledWithRPCOptions.holds (lastOn calls) ∧
      ConfigWarning.missingRPCAuth.holds (everOn calls) =
        ConfigWarning.missingRPCAuth.holds (lastOn calls) ↔
      ¬Overridden calls (.bool .server) := by
  have hbind : everOn calls .rpcBind = lastOn calls .rpcBind := everOn_eq_lastOn (by decide)
  have hallow : everOn calls .rpcAllowIP = lastOn calls .rpcAllowIP := everOn_eq_lastOn (by decide)
  have hauth : everOn calls .rpcAuth = lastOn calls .rpcAuth := everOn_eq_lastOn (by decide)
  have hcookie : everOn calls .rpcCookieFile = lastOn calls .rpcCookieFile :=
    everOn_eq_lastOn (by decide)
  rw [← kept_agree calls (f := .server) ⟨rfl, rfl⟩]
  simp only [ConfigWarning.holds, hbind, hallow, hauth, hcookie]
  constructor
  · rintro ⟨hoff, hon⟩
    by_cases hnone : lastOn calls .rpcAuth = false ∧ lastOn calls .rpcCookieFile = false
    · simpa [hnone.1, hnone.2] using hon
    · have hsome : lastOn calls .rpcAuth = true ∨ lastOn calls .rpcCookieFile = true := by
        simpa [or_iff_not_imp_left] using hnone
      rcases hsome with hsome | hsome <;> simpa [hsome] using hoff
  · intro hserver
    rw [hserver]
    exact ⟨rfl, rfl⟩

theorem warnings_agree :
    (∀ w ∈ ConfigWarning.all, w.holds (everOn calls) = w.holds (lastOn calls)) ↔
      WarnedKept calls := by
  have hbind : ConfigWarning.rpcBindWithoutAllowIP.holds (everOn calls) =
      ConfigWarning.rpcBindWithoutAllowIP.holds (lastOn calls) := by
    rw [ConfigWarning.holds, everOn_eq_lastOn (f := .rpcBind) (by decide),
      everOn_eq_lastOn (f := .rpcAllowIP) (by decide)]
    rfl
  have hconnect : ConfigWarning.connectDisablesPeerDiscovery.holds (everOn calls) =
      ConfigWarning.connectDisablesPeerDiscovery.holds (lastOn calls) :=
    everOn_eq_lastOn (f := .connect) (by decide)
  have hblocks := mentioned_agree calls (f := .blocksOnly) (n := .bool .blocksOnly)
    (g := .maxMempool) ⟨rfl, rfl⟩ (by decide)
  have hwallet := mentioned_agree calls (f := .disableWallet) (n := .bool .disableWallet)
    (g := .walletOption) ⟨rfl, rfl⟩ (by decide)
  have hupload := both_agree calls (f := .maxUploadTarget) (n := .uint .maxUploadTarget)
    (g := .listen) (m := .bool .listen) ⟨rfl, rfl⟩ ⟨rfl, rfl⟩
  have hserver := server_agree calls
  simp only [ConfigWarning.all, List.forall_mem_cons, List.not_mem_nil, false_imp_iff, implies_true,
    and_true, hbind, hconnect, true_and]
  constructor
  · rintro ⟨hs, hb, hm, hw, hu⟩
    exact ⟨hserver.1 ⟨hs, hm⟩, hblocks.1 hb, hwallet.1 hw, hupload.1 hu⟩
  · rintro ⟨hs, hb, hw, hu⟩
    exact ⟨(hserver.2 hs).1, hblocks.2 hb, (hserver.2 hs).2, hwallet.2 hw, hupload.2 hu⟩

end Overridden

/-! ## 7. The verdict -/

/-- **When `validate()` judges the effective configuration.** Its outcome is that of the rules on
    the effective values of the options just if the options that are overridden are harmless. -/
theorem validate_effective_iff (network : Network) (calls : List ConfigCall) :
    (BitcoinConfig.build network calls).validate =
        rules (effective (BitcoinConfig.build network calls).args) ↔
      OverridesHarmless calls := by
  have hnodup : ConfigError.all.Nodup := by decide
  have hprune : ConfigFlag.pruneSize.SwitchedBy .prune := ⟨rfl, rfl⟩
  have htx : ConfigFlag.txIndex.SwitchedBy (.bool .txIndex) := ⟨rfl, rfl⟩
  have hcoins : ConfigFlag.coinStatsIndex.SwitchedBy (.bool .coinStatsIndex) := ⟨rfl, rfl⟩
  rw [BitcoinConfig.validate, contains_build, effective_build, rules, rules, verdict_eq_iff hnodup,
    filter_eq_filter_iff, warnings_agree]
  simp only [ConfigError.all, Agree, filters_agree, filters_off]
  simp only [ConfigError.holds, both_agree calls htx hprune, both_agree calls hcoins hprune,
    both_off calls htx hprune, both_off calls hcoins hprune]
  constructor
  · rintro ⟨h₁, h⟩
    exact ⟨h₁, fun n₁ => (h n₁).1, fun n₁ n₂ => ((h n₁).2 n₂).1, fun n₁ n₂ => ((h n₁).2 n₂).2⟩
  · rintro ⟨h₁, h₂, h₃, h₄⟩
    exact ⟨h₁, fun n₁ => ⟨h₂ n₁, fun n₂ => ⟨h₃ n₁ n₂, h₄ n₁ n₂⟩⟩⟩

/-- A transaction index that is turned off again, before pruning to a size: `validate()` throws, and
    the effective values give no reason to. -/
theorem validate_overridden :
    let config := BitcoinConfig.build .mainnet
      [.bool .txIndex true, .bool .txIndex false, .prune (.size 550 (by decide))]
    config.validate = .error .txIndexWithPrune ∧ rules (effective config.args) = .ok [] := by
  decide +kernel

/-- **So it does if no option that was turned on is turned off by a later call.** -/
theorem validate_effective_of_kept (network : Network) {calls : List ConfigCall}
    (h : ∀ f, everOn calls f = true → lastOn calls f = true) :
    (BitcoinConfig.build network calls).validate =
      rules (effective (BitcoinConfig.build network calls).args) := by
  have hsame : everOn calls = lastOn calls := by
    funext f
    exact Bool.eq_iff_iff.mpr ⟨h f, everOn_of_lastOn⟩
  rw [BitcoinConfig.validate, contains_build, effective_build, hsame]

/-- **A call that turns its option off leaves the verdict as it was.** -/
theorem validate_silent (network : Network) (calls : List ConfigCall) {c : ConfigCall}
    (h : c.flag = none) :
    (BitcoinConfig.build network (calls ++ [c])).validate =
      (BitcoinConfig.build network calls).validate := by
  have hsame : everOn (calls ++ [c]) = everOn calls := by
    funext f
    simp [everOn, h]
  rw [BitcoinConfig.validate, BitcoinConfig.validate, contains_build, contains_build, hsame]

end SwiftBitcoinKernel
