/-
  File:      SwiftBitcoinKernel/Config/Soundness.lean
  Subject:   What `validate()` lets pass, before Core's own checks of the same options.

  * `Core.enabledFilterTypes`, `Core.checkPrune`, `Core.parameterChecks` -- the checks of block
    filters, peer block filters and pruning in `AppInitParameterInteraction` (init.cpp);
  * `Accepted`, `parameterChecks_ok_iff` -- the sequences of calls whose arguments pass them;
  * `Covered`, `validate_sound_iff` -- of the sequences that `validate()` lets pass, Core accepts just
    those; `validate_unsound` -- manual pruning with a transaction index is not among them.
-/
import SwiftBitcoinKernel.Config.Validation

namespace SwiftBitcoinKernel

open Logic

namespace Core

/-! ## 1. The checks -/

/-- `BlockFilterType`. -/
inductive BlockFilterType where
  | basic
  deriving DecidableEq

/-- `AllBlockFilterTypes`. -/
def allBlockFilterTypes : List BlockFilterType := [.basic]

/-- `BlockFilterTypeByName`. -/
def blockFilterTypeByName (name : Data) : Option BlockFilterType :=
  if name = utf8 "basic" then some .basic else none

/-- The loop over the names of filter types. -/
def filterTypesByName : List Data → Except Data (List BlockFilterType)
  | [] => .ok []
  | name :: names =>
    match blockFilterTypeByName name with
    | none => .error (utf8 "Unknown -blockfilterindex value " ++ name ++ utf8 ".")
    | some type => (filterTypesByName names).map (type :: ·)

/-- `g_enabled_filter_types`, or the text of the `InitError`. -/
def enabledFilterTypes (settings : Settings) : Except Data (List BlockFilterType) :=
  let value := (settings.getArg (utf8 "blockfilterindex")).getD (utf8 "0")
  if value = [] ∨ value = utf8 "1" then .ok allBlockFilterTypes
  else if value ≠ utf8 "0" then filterTypesByName (settings.getArgs (utf8 "blockfilterindex"))
  else .ok []

/-- The checks of `-peerblockfilters`. -/
def checkPeerBlockFilters (settings : Settings) (types : List BlockFilterType) : Except Data Unit :=
  if settings.getBoolArg (utf8 "peerblockfilters") false && !types.contains .basic then
    .error (utf8 "Cannot set -peerblockfilters without -blockfilterindex.")
  else .ok ()

/-- The checks of `-prune`. -/
def checkPrune (settings : Settings) : Except Data Unit :=
  if settings.getIntArg (utf8 "prune") 0 ≠ 0 then
    if settings.getBoolArg (utf8 "txindex") false then
      .error (utf8 "Prune mode is incompatible with -txindex.")
    else if settings.getBoolArg (utf8 "txospenderindex") false then
      .error (utf8 "Prune mode is incompatible with -txospenderindex.")
    else if settings.getBoolArg (utf8 "reindex-chainstate") false then
      .error (utf8
        "Prune mode is incompatible with -reindex-chainstate. Use full -reindex instead.")
    else .ok ()
  else .ok ()

/-- The part of `AppInitParameterInteraction` that is about block filters and pruning. -/
def parameterChecks (settings : Settings) : Except Data Unit := do
  let types ← enabledFilterTypes settings
  checkPeerBlockFilters settings types
  checkPrune settings

/-- The loop finds every name just if all are `basic`. -/
theorem filterTypesByName_ok {names : List Data} {types : List BlockFilterType} :
    filterTypesByName names = .ok types ↔
      (∀ name ∈ names, name = utf8 "basic") ∧ types = names.map fun _ => .basic := by
  induction names generalizing types with
  | nil => simp [filterTypesByName, eq_comm]
  | cons name names ih =>
    by_cases hname : name = utf8 "basic"
    · subst hname
      have hbasic : blockFilterTypeByName (utf8 "basic") = some .basic := if_pos rfl
      simp only [filterTypesByName, hbasic]
      cases hrest : filterTypesByName names with
      | error e =>
        have hno : ¬ ∀ name ∈ names, name = utf8 "basic" := by
          intro hall
          have hok := ih.mpr ⟨hall, rfl⟩
          rw [hrest] at hok
          cases hok
        simp [Except.map, hno]
      | ok rest =>
        obtain ⟨hall, hrest'⟩ := ih.mp hrest
        have hall' : ∀ name ∈ utf8 "basic" :: names, name = utf8 "basic" := by
          intro name hname
          rcases List.mem_cons.mp hname with rfl | hname
          · rfl
          · exact hall name hname
        rw [and_iff_right hall', hrest', Except.map, Except.ok.injEq, List.map_cons, eq_comm]
    · have hnone : blockFilterTypeByName name = none := if_neg hname
      simp [filterTypesByName, hnone, hname]

end Core

/-! ## 2. What Core accepts -/

/-- Pruning is on at the end, to a size or by hand. -/
def Pruning (calls : List ConfigCall) : Prop :=
  ∃ mode, lastCall .prune calls = some (.prune mode) ∧ mode ≠ .disabled

/-- A switch is on at the end. -/
def SwitchedOn (o : BoolOption) (calls : List ConfigCall) : Prop :=
  lastCall (.bool o) calls = some (.bool o true)

/-- The last call that chooses block filters names them, and an earlier one does not. -/
def MixedFilters (calls : List ConfigCall) : Prop :=
  lastCall .blockFilterIndex calls = some (.blockFilterIndex .basic) ∧
    ∃ mode, .blockFilterIndex mode ∈ calls ∧ mode ≠ .basic

/-- The sequences whose arguments Core accepts. -/
structure Accepted (calls : List ConfigCall) : Prop where
  filters : ¬ MixedFilters calls
  peers : SwitchedOn .peerBlockFilters calls →
    ∃ mode, lastCall .blockFilterIndex calls = some (.blockFilterIndex mode) ∧ mode ≠ .disabled
  pruning : Pruning calls → ¬ SwitchedOn .txIndex calls ∧ ¬ SwitchedOn .txoSpenderIndex calls ∧
    .reindexChainstate ∉ calls

section Accepted

variable (network : Network) (calls : List ConfigCall)

theorem argText_blockFilterIndex (mode : BlockFilterMode) :
    (ConfigCall.blockFilterIndex mode).argText = utf8 mode.description := by
  cases mode <;> decide

/-- The names Core looks filter types up by are all `basic` just if all the calls say so. -/
theorem getArgs_basic_iff :
    (∀ name ∈ (callSettings network calls).getArgs (utf8 "blockfilterindex"), name = utf8 "basic") ↔
      ∀ mode, .blockFilterIndex mode ∈ calls → mode = .basic := by
  have hargs := getArgs_callSettings network calls .blockFilterIndex
  have hbasic : ∀ mode : BlockFilterMode, utf8 mode.description = utf8 "basic" → mode = .basic := by
    intro mode
    cases mode <;> decide
  rw [show utf8 "blockfilterindex" = utf8 OptionName.blockFilterIndex.key from rfl, hargs]
  constructor
  · intro h mode hmem
    have hname : utf8 mode.description = utf8 "basic" := by
      rw [← argText_blockFilterIndex]
      exact h _ (List.mem_map.mpr ⟨_, List.mem_filter.mpr ⟨hmem, by rfl⟩, rfl⟩)
    exact hbasic mode hname
  · intro h name hname
    obtain ⟨c, hc, rfl⟩ := List.mem_map.mp hname
    obtain ⟨hmem, hoption⟩ := List.mem_filter.mp hc
    obtain ⟨mode, rfl⟩ := name_blockFilterIndex (of_decide_eq_true hoption)
    rw [argText_blockFilterIndex, h mode hmem]
    rfl

/-- **Core's block filters**: an error just for mixed calls, and otherwise the basic filter just if
    the last call does not turn filters off. -/
theorem enabledFilterTypes_callSettings :
    (MixedFilters calls ∧ ∃ text, Core.enabledFilterTypes (callSettings network calls) = .error text) ∨
    (¬ MixedFilters calls ∧ ∃ types,
      Core.enabledFilterTypes (callSettings network calls) = .ok types ∧
        (types.contains .basic = true ↔ ∃ mode,
          lastCall .blockFilterIndex calls = some (.blockFilterIndex mode) ∧ mode ≠ .disabled)) := by
  have hsetting := getSetting_callSettings network calls .blockFilterIndex
  have harg : (callSettings network calls).getArg (utf8 "blockfilterindex") =
      (lastCall .blockFilterIndex calls).map ConfigCall.argText := by
    unfold Core.Settings.getArg
    rw [show utf8 "blockfilterindex" = utf8 OptionName.blockFilterIndex.key from rfl, hsetting,
      Option.map_map]
    rfl
  unfold Core.enabledFilterTypes
  rw [harg]
  cases hlast : lastCall .blockFilterIndex calls with
  | none =>
    refine .inr ⟨fun h => ?_, [], ?_, ?_⟩
    · rw [MixedFilters, hlast] at h
      exact absurd h.1 (by simp)
    · rfl
    · simp
  | some c =>
    obtain ⟨hmem, hname⟩ := lastBy_eq_some hlast
    obtain ⟨mode, rfl⟩ := name_blockFilterIndex hname
    simp only [Option.map_some, Option.getD_some, argText_blockFilterIndex]
    cases mode with
    | disabled =>
      refine .inr ⟨fun h => ?_, [], by rfl, by simp⟩
      rw [MixedFilters, hlast] at h
      exact absurd h.1 (by simp)
    | all =>
      refine .inr ⟨fun h => ?_, Core.allBlockFilterTypes, by rfl, ?_⟩
      · rw [MixedFilters, hlast] at h
        exact absurd h.1 (by simp)
      · simp [Core.allBlockFilterTypes]
    | basic =>
      have hnames := getArgs_basic_iff network calls
      have hswitch : ¬ (utf8 "basic" = [] ∨ utf8 "basic" = utf8 "1") := by decide
      have hzero : utf8 "basic" ≠ utf8 "0" := by decide
      rw [BlockFilterMode.description, if_neg hswitch, if_pos hzero]
      by_cases hall : ∀ mode, .blockFilterIndex mode ∈ calls → mode = .basic
      · have hok := Core.filterTypesByName_ok.mpr ⟨hnames.mpr hall, rfl⟩
        refine .inr ⟨fun h => ?_, _, hok, ?_⟩
        · obtain ⟨_, mode, hmode, hne⟩ := h
          exact hne (hall mode hmode)
        · have hgiven : (ConfigCall.blockFilterIndex .basic).argText ∈
              (callSettings network calls).getArgs (utf8 OptionName.blockFilterIndex.key) := by
            rw [getArgs_callSettings]
            exact List.mem_map_of_mem (List.mem_filter.mpr ⟨hmem, by rfl⟩)
          have hbasic : Core.BlockFilterType.basic ∈
              ((callSettings network calls).getArgs (utf8 "blockfilterindex")).map
                fun _ => Core.BlockFilterType.basic := List.mem_map.mpr ⟨_, hgiven, rfl⟩
          simp only [List.contains_iff_mem]
          exact ⟨fun _ => ⟨.basic, rfl, by simp⟩, fun _ => hbasic⟩
      · have hmixed : MixedFilters calls := by
          refine ⟨hlast, ?_⟩
          simpa only [not_forall, exists_prop] using hall
        refine .inl ⟨hmixed, ?_⟩
        cases hresult : Core.filterTypesByName
            ((callSettings network calls).getArgs (utf8 "blockfilterindex")) with
        | error text => exact ⟨text, rfl⟩
        | ok types => exact absurd (hnames.mp (Core.filterTypesByName_ok.mp hresult).1) hall

/-- **Core prunes just if the last call says so.** -/
theorem getIntArg_prune :
    (callSettings network calls).getIntArg (utf8 "prune") 0 ≠ 0 ↔ Pruning calls := by
  have hsetting := getSetting_callSettings network calls .prune
  unfold Core.Settings.getIntArg Pruning
  rw [show utf8 "prune" = utf8 OptionName.prune.key from rfl, hsetting]
  cases hlast : lastCall .prune calls with
  | none => simp
  | some c =>
    obtain ⟨mode, rfl⟩ := name_prune (lastBy_eq_some hlast).2
    have hrange : mode.rawValue ≤ 9223372036854775807 ∧ (mode.rawValue = 0 ↔ mode = .disabled) := by
      cases mode with
      | disabled => simp [PruneMode.rawValue]
      | manual => simp [PruneMode.rawValue]
      | size mb valid =>
        simp only [PruneMode.rawValue, reduceCtorEq, iff_false]
        omega
    have hread : (Core.SettingsValue.text (ConfigCall.prune mode).argText).toInt = mode.rawValue :=
      toInt_decimal hrange.1
    simp only [Option.map_some, Option.getD_some, hread, Option.some.injEq, ConfigCall.prune.injEq,
      exists_eq_left', ne_eq, Int.natCast_eq_zero, hrange.2]

theorem getBoolArg_reindexChainstate :
    (callSettings network calls).getBoolArg (utf8 "reindex-chainstate") false = true ↔
      .reindexChainstate ∈ calls := by
  have hsetting := getSetting_callSettings network calls .reindexChainstate
  have hcall : ∀ c : ConfigCall, c.name = .reindexChainstate → c = .reindexChainstate := by
    intro c h
    cases c with
    | reindexChainstate => rfl
    | _ => cases h
  unfold Core.Settings.getBoolArg
  rw [show utf8 "reindex-chainstate" = utf8 OptionName.reindexChainstate.key from rfl, hsetting]
  cases hlast : lastCall .reindexChainstate calls with
  | none =>
    have hnot : .reindexChainstate ∉ calls := fun h => lastBy_eq_none.mp hlast _ h rfl
    simp [hnot]
  | some c =>
    obtain ⟨hmem, hname⟩ := lastBy_eq_some hlast
    obtain rfl := hcall c hname
    simp only [hmem, iff_true]
    decide

theorem checkPeerBlockFilters_ok (types : List Core.BlockFilterType) :
    Core.checkPeerBlockFilters (callSettings network calls) types = .ok () ↔
      (SwitchedOn .peerBlockFilters calls → types.contains .basic = true) := by
  have hpeers : (callSettings network calls).getBoolArg (utf8 "peerblockfilters") false = true ↔
      SwitchedOn .peerBlockFilters calls := getBoolArg_callSettings network calls .peerBlockFilters
  unfold Core.checkPeerBlockFilters
  rw [← hpeers]
  cases (callSettings network calls).getBoolArg (utf8 "peerblockfilters") false <;>
    cases types.contains .basic <;> simp

theorem checkPrune_ok :
    Core.checkPrune (callSettings network calls) = .ok () ↔
      (Pruning calls → ¬ SwitchedOn .txIndex calls ∧ ¬ SwitchedOn .txoSpenderIndex calls ∧
        .reindexChainstate ∉ calls) := by
  have hprune := getIntArg_prune network calls
  have htx : (callSettings network calls).getBoolArg (utf8 "txindex") false = true ↔
      SwitchedOn .txIndex calls := getBoolArg_callSettings network calls .txIndex
  have hspender : (callSettings network calls).getBoolArg (utf8 "txospenderindex") false = true ↔
      SwitchedOn .txoSpenderIndex calls := getBoolArg_callSettings network calls .txoSpenderIndex
  have hreindex := getBoolArg_reindexChainstate network calls
  unfold Core.checkPrune
  rw [← htx, ← hspender, ← hreindex, ← hprune]
  by_cases hp : (callSettings network calls).getIntArg (utf8 "prune") 0 ≠ 0
  · rw [if_pos hp, imp_iff_right hp]
    split
    next h => simp [h]
    next h =>
      split
      next h' => simp [h']
      next h' =>
        split
        next h'' => simp [h'']
        next h'' => simp [h, h', h'']
  · rw [if_neg hp]
    simp [hp]

/-- **Core accepts the arguments of just these sequences.** -/
theorem parameterChecks_ok_iff :
    Core.parameterChecks (callSettings network calls) = .ok () ↔ Accepted calls := by
  have hpeers := checkPeerBlockFilters_ok network calls
  have hprune := checkPrune_ok network calls
  unfold Core.parameterChecks
  rcases enabledFilterTypes_callSettings network calls with
    ⟨hmixed, text, herror⟩ | ⟨hfilters, types, hok, hbasic⟩
  · rw [herror]
    refine ⟨fun h => ?_, fun h => absurd hmixed h.filters⟩
    cases h
  · rw [hok]
    simp only [bind, Except.bind]
    cases hcheck : Core.checkPeerBlockFilters (callSettings network calls) types with
    | error text =>
      refine ⟨fun h => ?_, fun h => ?_⟩
      · cases h
      · have hpass := (hpeers types).mpr fun hon => hbasic.mpr (h.peers hon)
        rw [hcheck] at hpass
        cases hpass
    | ok _ =>
      refine ⟨fun h => ?_, fun h => hprune.mpr h.pruning⟩
      exact ⟨hfilters, fun hon => hbasic.mp ((hpeers types).mp hcheck hon), hprune.mp h⟩

end Accepted

/-! ## 3. What `validate()` lets pass -/

/-- What `validate()` leaves to the caller: not to mix the ways of choosing block filters, not to turn
    them off under peer block filters, and not to prune by hand with a transaction index, nor in any
    way with a spender index or a reindexed chainstate. -/
structure Covered (calls : List ConfigCall) : Prop where
  filters : ¬ MixedFilters calls
  peers : SwitchedOn .peerBlockFilters calls →
    lastCall .blockFilterIndex calls ≠ some (.blockFilterIndex .disabled)
  manual : lastCall .prune calls = some (.prune .manual) → ¬ SwitchedOn .txIndex calls
  pruning : Pruning calls → ¬ SwitchedOn .txoSpenderIndex calls ∧ .reindexChainstate ∉ calls

/-- A flag of the last call on an option was recorded. -/
theorem everOn_of_lastCall {calls : List ConfigCall} {n : OptionName} {c : ConfigCall}
    {f : ConfigFlag} (h : lastCall n calls = some c) (hf : c.flag = some f) :
    everOn calls f = true := by
  rw [everOn, List.any_eq_true]
  exact ⟨c, (lastBy_eq_some h).1, decide_eq_true hf⟩

/-- **When `validate()` is sound for Core.** If it does not throw, Core's checks of block filters and
    pruning pass just if the rest is taken care of. Options that Core would refuse before it comes to
    these checks are read like the others. -/
theorem validate_sound_iff (network : Network) (calls : List ConfigCall)
    (h : ∃ warnings, (BitcoinConfig.build network calls).validate = .ok warnings) :
    (∃ settings,
      Core.parseArguments Core.anyOption (BitcoinConfig.build network calls).args = some settings ∧
      Core.parameterChecks settings = .ok ()) ↔ Covered calls := by
  obtain ⟨warnings, hvalid⟩ := h
  rw [BitcoinConfig.validate, contains_build, rules] at hvalid
  obtain ⟨_, hrules⟩ := verdict_ok hvalid
  have htx := hrules .txIndexWithPrune (by simp [ConfigError.all])
  have hpeers := hrules .peerBlockFiltersWithoutIndex (by simp [ConfigError.all])
  simp only [ConfigError.holds] at htx hpeers
  simp only [parseArguments_anyOption, Option.some.injEq, exists_eq_left', parameterChecks_ok_iff]
  constructor
  · intro haccepted
    refine ⟨haccepted.filters, fun hon hoff => ?_, fun hmanual hon => ?_, fun hp => ?_⟩
    · obtain ⟨mode, hlast, hne⟩ := haccepted.peers hon
      rw [hoff] at hlast
      cases hlast
      exact hne rfl
    · exact (haccepted.pruning ⟨.manual, hmanual, by simp⟩).1 hon
    · exact (haccepted.pruning hp).2
  · intro hcovered
    refine ⟨hcovered.filters, fun hon => ?_, fun hp => ⟨fun hon => ?_, hcovered.pruning hp⟩⟩
    · -- the flag of the peer block filters is set, so that of all block filters is
      have hever := everOn_of_lastCall (f := .peerBlockFilters) hon rfl
      have hall : everOn calls .blockFilterIndexAll = true := by simpa [hever] using hpeers
      rw [everOn, List.any_eq_true] at hall
      obtain ⟨c, hc, hflag⟩ := hall
      have hname : c.name = .blockFilterIndex := by
        simpa [ConfigFlag.options] using name_mem_options (of_decide_eq_true hflag)
      obtain ⟨d, _, hd, hlast⟩ : ∃ d ∈ calls, d.name = c.name ∧ lastCall c.name calls = some d :=
        lastBy_of_mem hc
      rw [hname] at hd hlast
      obtain ⟨mode, rfl⟩ := name_blockFilterIndex hd
      refine ⟨mode, hlast, fun hmode => hcovered.peers hon ?_⟩
      rw [← hmode]
      exact hlast
    · obtain ⟨mode, hlast, hne⟩ := hp
      cases mode with
      | disabled => exact hne rfl
      | manual => exact hcovered.manual hlast hon
      | size mb valid =>
        -- both flags are set, and `validate()` would have thrown
        have hsize := everOn_of_lastCall (f := .pruneSize) hlast rfl
        have hindex := everOn_of_lastCall (f := .txIndex) hon rfl
        simp [hsize, hindex] at htx

/-- A pruned node without a transaction index, and with block filters for its peers. -/
theorem validate_sound_pruned :
    ∃ settings, Core.parseArguments Core.anyOption (BitcoinConfig.build .mainnet
      [.prune (.size 550 (by decide)), .blockFilterIndex .all,
        .bool .peerBlockFilters true]).args = some settings ∧
      Core.parameterChecks settings = .ok () :=
  (validate_sound_iff .mainnet _ ⟨[], by decide +kernel⟩).mpr
    ⟨fun h => absurd h.1 (by decide), fun _ => by decide, fun h => absurd h (by decide),
      fun _ => ⟨by unfold SwitchedOn; decide, by decide⟩⟩

/-- Manual pruning with a transaction index: `validate()` has nothing to say, and Core refuses to
    start. -/
theorem validate_unsound :
    let config := BitcoinConfig.build .mainnet [.prune .manual, .bool .txIndex true]
    config.validate = .ok [] ∧
      (Core.parseParameters config.args).map Core.parameterChecks =
        some (.error (utf8 "Prune mode is incompatible with -txindex.")) := by
  decide +kernel

end SwiftBitcoinKernel
