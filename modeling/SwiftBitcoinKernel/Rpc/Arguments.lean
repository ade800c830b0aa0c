/-
  File:      SwiftBitcoinKernel/Rpc/Arguments.lean
  Subject:   The wrappers with several optional parameters, against Core's argument tables.

  Parameters are sent by position. A wrapper that leaves out what was not supplied has to fill the
  gap before whatever comes after it, and each does so in its own way.

  * `RPCClient.getChainTxStats` … `RPCClient.listSinceBlock` -- the wrappers, by the request they
    send. The wallet is no argument of the method: it goes into the path;
  * `OptionalCall` -- a call of one of them, with what was supplied and what was omitted;
  * `CoreArg`, `OptionalCall.table` -- the arguments of the methods, as Core declares them;
  * `Laid` -- every supplied argument stands where Core looks for it, and nothing else does;
  * `optional_calls_laid_iff` -- which calls are laid out so: `getTxSpendingPrevout` with neither of
    its options, and four others unless an argument follows one that was omitted.
-/
import SwiftBitcoinKernel.Rpc.Client

namespace SwiftBitcoinKernel

/-! ## 1. The wrappers -/

/-- `[String: RPCParam]`, in the order it is encoded. -/
abbrev ParamDictionary := List (Data × RPCParam)

/-- A dictionary, encoded. -/
def ParamDictionary.encode (entries : ParamDictionary) : Option UniValue :=
  (entries.mapM fun entry : Data × RPCParam => entry.2.encode.map fun v => (entry.1, v)).map .obj

namespace RPCParam

/-- `.encodable`, of a `[String]`. -/
def strings (v : List Data) : RPCParam := .encodable (some (.arr (v.map .str)))

/-- `.encodable`, of a `[String: RPCParam]`. -/
def dictionary (v : ParamDictionary) : RPCParam := .encodable v.encode

/-- `.encodable`, of a `[[String: RPCParam]]`. -/
def dictionaries (v : List ParamDictionary) : RPCParam :=
  .encodable ((v.mapM ParamDictionary.encode).map .arr)

end RPCParam

namespace RPCClient

/-- Two optional parameters, the second inside the `if let` of the first. -/
def nested (first second : Option RPCParam) : List RPCParam :=
  match first with
  | some first => [first] ++ second.toList
  | none => []

/-- Two optional parameters, with null for the first if only the second is there. -/
def spaced (first second : Option RPCParam) : List RPCParam :=
  let placed := match first with
    | some first => [first]
    | none => if second.isSome then [.null] else []
  placed ++ second.toList

/-- `getChainTxStats(nBlocks:hash:)`. -/
def getChainTxStats (nBlocks : Option Int64) (hash : Option Data) : JSONRPCRequest :=
  buildRequest (ascii "getchaintxstats") (nested (nBlocks.map .int) (hash.map .string))

/-- `getTxOutSetInfo(hashType:hash:)`. -/
def getTxOutSetInfo (hashType hash : Option Data) : JSONRPCRequest :=
  buildRequest (ascii "gettxoutsetinfo") (nested (hashType.map .string) (hash.map .string))

/-- `getTxSpendingPrevout(outputs:mempoolOnly:returnSpendingTx:)`. -/
def getTxSpendingPrevout (outputs : List ParamDictionary)
    (mempoolOnly returnSpendingTx : Option Bool) : JSONRPCRequest :=
  buildRequest (ascii "gettxspendingprevout")
    ([.dictionaries outputs] ++ spaced (mempoolOnly.map .bool) (returnSpendingTx.map .bool))

/-- `logging(include:exclude:)`. -/
def logging (included excluded : Option (List Data)) : JSONRPCRequest :=
  buildRequest (ascii "logging") (nested (included.map .strings) (excluded.map .strings))

/-- `scanBlocks(action:descriptors:startHeight:stopHeight:filterType:)`. -/
def scanBlocks (action : Data) (descriptors : Option (List Data))
    (startHeight stopHeight : Option Int64) (filterType : Data) : JSONRPCRequest :=
  let scan := match descriptors with
    | some descriptors =>
      [.strings descriptors, (startHeight.map .int).getD .null, (stopHeight.map .int).getD .null,
        .string filterType]
    | none => []
  buildRequest (ascii "scanblocks") ([.string action] ++ scan)

/-- `sendToAddress(wallet:address:amount:comment:commentTo:subtractFeeFromAmount:replaceable:`
    `confTarget:)`. -/
def sendToAddress (address : Data) (amount : Option NumText) (comment commentTo : Data)
    (subtractFeeFromAmount : Bool) (replaceable : Option Bool) (confTarget : Option Int64) :
    JSONRPCRequest :=
  buildRequest (ascii "sendtoaddress")
    ([.string address, .double amount, .string comment, .string commentTo,
      .bool subtractFeeFromAmount] ++ spaced (replaceable.map .bool) (confTarget.map .int))

/-- `walletSend(wallet:outputs:options:)`. -/
def walletSend (outputs : List ParamDictionary) (options : Option ParamDictionary) :
    JSONRPCRequest :=
  let rest := match options with
    | some options => [.null, .null, .null, .dictionary options]
    | none => []
  buildRequest (ascii "send") ([.dictionaries outputs] ++ rest)

/-- `listSinceBlock(wallet:blockHash:targetConfirmations:includeWatchOnly:includeRemoved:)`. -/
def listSinceBlock (blockHash : Option Data) (targetConfirmations : Int64)
    (includeWatchOnly includeRemoved : Bool) : JSONRPCRequest :=
  buildRequest (ascii "listsinceblock")
    [(blockHash.map .string).getD .null, .int targetConfirmations, .bool includeWatchOnly,
      .bool includeRemoved]

end RPCClient

/-! ## 2. Calls -/

/-- A call, with every argument that may be omitted as it was supplied. -/
inductive OptionalCall where
  | getChainTxStats (nBlocks : Option Int64) (hash : Option Data)
  | getTxOutSetInfo (hashType hash : Option Data)
  | getTxSpendingPrevout (outputs : List ParamDictionary)
      (mempoolOnly returnSpendingTx : Option Bool)
  | logging (included excluded : Option (List Data))
  | scanBlocks (action : Option Data) (descriptors : Option (List Data))
      (startHeight stopHeight : Option Int64) (filterType : Option Data)
  | sendToAddress (address : Data) (amount : Option NumText) (comment commentTo : Option Data)
      (subtractFeeFromAmount replaceable : Option Bool) (confTarget : Option Int64)
  | walletSend (outputs : List ParamDictionary) (options : Option ParamDictionary)
  | listSinceBlock (blockHash : Option Data) (targetConfirmations : Option Int64)
      (includeWatchOnly includeRemoved : Option Bool)

/-- The request of a call, with the default arguments of the wrappers. -/
def OptionalCall.request : OptionalCall → JSONRPCRequest
  | .getChainTxStats nBlocks hash => RPCClient.getChainTxStats nBlocks hash
  | .getTxOutSetInfo hashType hash => RPCClient.getTxOutSetInfo hashType hash
  | .getTxSpendingPrevout outputs mempoolOnly returnSpendingTx =>
    RPCClient.getTxSpendingPrevout outputs mempoolOnly returnSpendingTx
  | .logging included excluded => RPCClient.logging included excluded
  | .scanBlocks action descriptors startHeight stopHeight filterType =>
    RPCClient.scanBlocks (action.getD (ascii "start")) descriptors startHeight stopHeight
      (filterType.getD (ascii "basic"))
  | .sendToAddress address amount comment commentTo subtractFeeFromAmount replaceable confTarget =>
    RPCClient.sendToAddress address amount (comment.getD (ascii "")) (commentTo.getD (ascii ""))
      (subtractFeeFromAmount.getD false) replaceable confTarget
  | .walletSend outputs options => RPCClient.walletSend outputs options
  | .listSinceBlock blockHash targetConfirmations includeWatchOnly includeRemoved =>
    RPCClient.listSinceBlock blockHash (targetConfirmations.getD 1)
      (includeWatchOnly.getD false) (includeRemoved.getD true)

/-- An argument of a wrapper, under the name Core has for it. -/
structure Argument where
  name : String
  /-- What was supplied. -/
  supplied : Option RPCParam
  /-- What the wrapper takes for it if nothing was. -/
  preset : Option RPCParam

/-- The arguments of a call. -/
def OptionalCall.arguments : OptionalCall → List Argument
  | .getChainTxStats nBlocks hash =>
    [⟨"nblocks", nBlocks.map .int, none⟩, ⟨"blockhash", hash.map .string, none⟩]
  | .getTxOutSetInfo hashType hash =>
    [⟨"hash_type", hashType.map .string, none⟩, ⟨"hash_or_height", hash.map .string, none⟩]
  | .getTxSpendingPrevout outputs mempoolOnly returnSpendingTx =>
    [⟨"outputs", some (.dictionaries outputs), none⟩,
      ⟨"mempool_only", mempoolOnly.map .bool, none⟩,
      ⟨"return_spending_tx", returnSpendingTx.map .bool, none⟩]
  | .logging included excluded =>
    [⟨"include", included.map .strings, none⟩, ⟨"exclude", excluded.map .strings, none⟩]
  | .scanBlocks action descriptors startHeight stopHeight filterType =>
    [⟨"action", action.map .string, some (.string (ascii "start"))⟩,
      ⟨"scanobjects", descriptors.map .strings, none⟩,
      ⟨"start_height", startHeight.map .int, none⟩, ⟨"stop_height", stopHeight.map .int, none⟩,
      ⟨"filtertype", filterType.map .string, some (.string (ascii "basic"))⟩]
  | .sendToAddress address amount comment commentTo subtractFeeFromAmount replaceable confTarget =>
    [⟨"address", some (.string address), none⟩, ⟨"amount", some (.double amount), none⟩,
      ⟨"comment", comment.map .string, some (.string (ascii ""))⟩,
      ⟨"comment_to", commentTo.map .string, some (.string (ascii ""))⟩,
      ⟨"subtractfeefromamount", subtractFeeFromAmount.map .bool, some (.bool false)⟩,
      ⟨"replaceable", replaceable.map .bool, none⟩, ⟨"conf_target", confTarget.map .int, none⟩]
  | .walletSend outputs options =>
    [⟨"outputs", some (.dictionaries outputs), none⟩, ⟨"options", options.map .dictionary, none⟩]
  | .listSinceBlock blockHash targetConfirmations includeWatchOnly includeRemoved =>
    [⟨"blockhash", blockHash.map .string, none⟩,
      ⟨"target_confirmations", targetConfirmations.map .int, some (.int 1)⟩,
      ⟨"include_watchonly", includeWatchOnly.map .bool, some (.bool false)⟩,
      ⟨"include_removed", includeRemoved.map .bool, some (.bool true)⟩]

/-! ## 3. The tables -/

/-- An argument of a method: its name, and the names of its members if it is an object of named
    options. -/
structure CoreArg where
  name : String
  members : List String

/-- The arguments that the method of a call declares, by position. The members of the options of
    `send` are left out: the wrapper has a parameter for the object. -/
def OptionalCall.table : OptionalCall → List CoreArg
  | .getChainTxStats .. => [⟨"nblocks", []⟩, ⟨"blockhash", []⟩]
  | .getTxOutSetInfo .. => [⟨"hash_type", []⟩, ⟨"hash_or_height", []⟩, ⟨"use_index", []⟩]
  | .getTxSpendingPrevout .. =>
    [⟨"outputs", []⟩, ⟨"options", ["mempool_only", "return_spending_tx"]⟩]
  | .logging .. => [⟨"include", []⟩, ⟨"exclude", []⟩]
  | .scanBlocks .. =>
    [⟨"action", []⟩, ⟨"scanobjects", []⟩, ⟨"start_height", []⟩, ⟨"stop_height", []⟩,
      ⟨"filtertype", []⟩, ⟨"options", ["filter_false_positives"]⟩]
  | .sendToAddress .. =>
    [⟨"address", []⟩, ⟨"amount", []⟩, ⟨"comment", []⟩, ⟨"comment_to", []⟩,
      ⟨"subtractfeefromamount", []⟩, ⟨"replaceable", []⟩, ⟨"conf_target", []⟩,
      ⟨"estimate_mode", []⟩, ⟨"avoid_reuse", []⟩, ⟨"fee_rate", []⟩, ⟨"verbose", []⟩]
  | .walletSend .. =>
    [⟨"outputs", []⟩, ⟨"conf_target", []⟩, ⟨"estimate_mode", []⟩, ⟨"fee_rate", []⟩,
      ⟨"options", []⟩, ⟨"version", []⟩]
  | .listSinceBlock .. =>
    [⟨"blockhash", []⟩, ⟨"target_confirmations", []⟩, ⟨"include_watchonly", []⟩,
      ⟨"include_removed", []⟩, ⟨"include_change", []⟩, ⟨"label", []⟩]

/-- What was supplied under a name. -/
def suppliedAs (args : List Argument) (name : String) : Option RPCParam :=
  (args.find? fun a => a.name == name).bind Argument.supplied

/-- What the wrapper takes under a name if nothing was. -/
def presetAs (args : List Argument) (name : String) : Option RPCParam :=
  (args.find? fun a => a.name == name).bind Argument.preset

/-- `v` is a member of the object that stands there. -/
def HasMember (p : Option RPCParam) (name : String) (v : RPCParam) : Prop :=
  ∃ entries u, p = some (.encodable (some (.obj entries))) ∧ v.encode = some u ∧
    (ascii name, u) ∈ entries

/-- What stands at the position of `c`, if anything does, is what was supplied for it; if nothing
    was, it is null or the wrapper's default. -/
structure Placed (args : List Argument) (c : CoreArg) (p : Option RPCParam) : Prop where
  carried : ∀ v, suppliedAs args c.name = some v → p = some v
  members : ∀ name ∈ c.members, ∀ v, suppliedAs args name = some v → HasMember p name v
  filled : suppliedAs args c.name = none → (∀ name ∈ c.members, suppliedAs args name = none) →
    ∀ q, p = some q → q = .null ∨ presetAs args c.name = some q

/-- Every argument has its place in the table, nothing stands beyond the table, and every position
    is in place. -/
structure Laid (table : List CoreArg) (args : List Argument) (params : List RPCParam) : Prop where
  known : ∀ a ∈ args, ∃ c ∈ table, a.name = c.name ∨ a.name ∈ c.members
  accepted : params.length ≤ table.length
  placed : ∀ (i : Nat) (c : CoreArg), table[i]? = some c → Placed args c params[i]?

/-! ## 4. Positions, one after the other -/

section Positions

variable {args : List Argument} {c : CoreArg} {table : List CoreArg} {params : List RPCParam}

/-- The positions of a table are in place. -/
def PlacedAll (args : List Argument) : List CoreArg → List RPCParam → Prop
  | [], _ => True
  | c :: table, params => Placed args c params.head? ∧ PlacedAll args table params.tail

theorem placed_of_placedAll (h : PlacedAll args table params) (i : Nat) (c : CoreArg)
    (hc : table[i]? = some c) : Placed args c params[i]? := by
  induction table generalizing i params with
  | nil => cases hc
  | cons d table ih =>
    obtain ⟨hhead, htail⟩ := h
    cases i with
    | zero =>
      cases hc
      rw [← List.head?_eq_getElem?]
      exact hhead
    | succ i =>
      have hrest := ih htail i hc
      rw [List.getElem?_tail] at hrest
      exact hrest

/-- What was supplied. -/
theorem Placed.supplied {v : RPCParam} (hmembers : c.members = [])
    (hgiven : suppliedAs args c.name = some v) : Placed args c (some v) where
  carried w hw := hgiven.symm.trans hw
  members name hname := by
    rw [hmembers] at hname
    cases hname
  filled hnone := by
    rw [hgiven] at hnone
    cases hnone

/-- Nothing was supplied for the position. -/
def Omitted (args : List Argument) (c : CoreArg) : Prop :=
  suppliedAs args c.name = none ∧ ∀ name ∈ c.members, suppliedAs args name = none

theorem omitted_of_name (hmembers : c.members = []) (hgiven : suppliedAs args c.name = none) :
    Omitted args c := by
  refine ⟨hgiven, fun name hname => ?_⟩
  rw [hmembers] at hname
  cases hname

/-- Then only what fills the gap is to be looked at. -/
theorem Omitted.placed {p : Option RPCParam} (h : Omitted args c)
    (hfilled : ∀ q, p = some q → q = .null ∨ presetAs args c.name = some q) : Placed args c p where
  carried v hv := by
    rw [h.1] at hv
    cases hv
  members name hname v hv := by
    rw [h.2 name hname] at hv
    cases hv
  filled _ _ := hfilled

/-- Nothing, for nothing. -/
theorem Omitted.absent (h : Omitted args c) : Placed args c none :=
  h.placed fun q hq => by cases hq

/-- Null, for nothing. -/
theorem Omitted.null (h : Omitted args c) : Placed args c (some .null) := by
  refine h.placed fun q hq => ?_
  cases hq
  exact .inl rfl

variable {α : Type} {f : α → RPCParam}

/-- An argument with a default. -/
theorem Placed.orPreset {d : α} (x : Option α) (hmembers : c.members = [])
    (hgiven : suppliedAs args c.name = x.map f) (hpreset : presetAs args c.name = some (f d)) :
    Placed args c (some (f (x.getD d))) := by
  cases x with
  | some v => exact Placed.supplied hmembers hgiven
  | none =>
    refine (omitted_of_name hmembers hgiven).placed fun q hq => ?_
    cases hq
    exact .inr hpreset

/-- An argument with null for its absence. -/
theorem Placed.orNull (x : Option α) (hmembers : c.members = [])
    (hgiven : suppliedAs args c.name = x.map f) : Placed args c (some ((x.map f).getD .null)) := by
  cases x with
  | some v => exact Placed.supplied hmembers hgiven
  | none => exact (omitted_of_name hmembers hgiven).null

/-- After the last argument nothing more is sent. -/
theorem placedAll_nil (h : ∀ c ∈ table, Omitted args c) : PlacedAll args table [] := by
  induction table with
  | nil => exact trivial
  | cons c table ih =>
    have hc := h c (List.mem_cons_self ..)
    exact ⟨hc.absent, ih fun d hd => h d (List.mem_cons_of_mem _ hd)⟩

variable {c₁ c₂ : CoreArg} {first second : Option RPCParam}

/-- Two parameters with null between are in place, at their own positions. -/
theorem placedAll_spaced (hfirst : suppliedAs args c₁.name = first) (hmembers₁ : c₁.members = [])
    (hsecond : suppliedAs args c₂.name = second) (hmembers₂ : c₂.members = [])
    (hrest : ∀ c ∈ table, Omitted args c) :
    PlacedAll args (c₁ :: c₂ :: table) (RPCClient.spaced first second) := by
  cases second with
  | none =>
    have hlast := (omitted_of_name hmembers₂ hsecond).absent
    cases first with
    | none => exact ⟨(omitted_of_name hmembers₁ hfirst).absent, hlast, placedAll_nil hrest⟩
    | some v => exact ⟨Placed.supplied hmembers₁ hfirst, hlast, placedAll_nil hrest⟩
  | some w =>
    have hlast := Placed.supplied hmembers₂ hsecond
    cases first with
    | none => exact ⟨(omitted_of_name hmembers₁ hfirst).null, hlast, placedAll_nil hrest⟩
    | some v => exact ⟨Placed.supplied hmembers₁ hfirst, hlast, placedAll_nil hrest⟩

/-- So are nested ones, unless the second is supplied alone. -/
theorem placedAll_nested (hfirst : suppliedAs args c₁.name = first) (hmembers₁ : c₁.members = [])
    (hsecond : suppliedAs args c₂.name = second) (hmembers₂ : c₂.members = [])
    (hrest : ∀ c ∈ table, Omitted args c) (h : (second.isNone || first.isSome) = true) :
    PlacedAll args (c₁ :: c₂ :: table) (RPCClient.nested first second) := by
  have hsame : RPCClient.nested first second = RPCClient.spaced first second := by
    cases first with
    | some v => rfl
    | none =>
      cases second with
      | none => rfl
      | some w => cases h
  rw [hsame]
  exact placedAll_spaced hfirst hmembers₁ hsecond hmembers₂ hrest

theorem length_nested (first second : Option RPCParam) :
    (RPCClient.nested first second).length ≤ 2 := by
  cases first <;> cases second <;> simp [RPCClient.nested]

theorem length_spaced (first second : Option RPCParam) :
    (RPCClient.spaced first second).length ≤ 2 := by
  cases first <;> cases second <;> simp [RPCClient.spaced]

/-- A second parameter that is supplied alone is lost. -/
theorem nested_of_laid (hlaid : Laid (c₁ :: c₂ :: table) args (RPCClient.nested first second))
    (hsecond : suppliedAs args c₂.name = second) : (second.isNone || first.isSome) = true := by
  cases first with
  | some v => exact Bool.or_true _
  | none =>
    cases second with
    | none => rfl
    | some w =>
      have hlost := (hlaid.placed 1 c₂ rfl).carried w hsecond
      cases hlost

end Positions

/-! ## 5. The calls -/

namespace OptionalCall

/-- No argument that was omitted stands before one that was supplied, where the wrapper does not
    fill the gap; and `getTxSpendingPrevout` has none of its options. -/
def aligned : OptionalCall → Bool
  | .getChainTxStats nBlocks hash => hash.isNone || nBlocks.isSome
  | .getTxOutSetInfo hashType hash => hash.isNone || hashType.isSome
  | .getTxSpendingPrevout _ mempoolOnly returnSpendingTx =>
    mempoolOnly.isNone && returnSpendingTx.isNone
  | .logging included excluded => excluded.isNone || included.isSome
  | .scanBlocks _ descriptors startHeight stopHeight filterType =>
    descriptors.isSome || (startHeight.isNone && stopHeight.isNone && filterType.isNone)
  | .sendToAddress .. => true
  | .walletSend .. => true
  | .listSinceBlock .. => true

/-- The call's parameters are where Core looks for them. -/
def IsLaid (call : OptionalCall) : Prop := Laid call.table call.arguments call.request.params

theorem known (call : OptionalCall) :
    ∀ a ∈ call.arguments, ∃ c ∈ call.table, a.name = c.name ∨ a.name ∈ c.members := by
  cases call <;> simp [arguments, table]

theorem isLaid_of_placedAll {call : OptionalCall}
    (haccepted : call.request.params.length ≤ call.table.length)
    (hall : PlacedAll call.arguments call.table call.request.params) : call.IsLaid :=
  ⟨call.known, haccepted, placed_of_placedAll hall⟩

/-- Of two nested parameters the second is not supplied alone. -/
theorem isLaid_nested_iff {call : OptionalCall} {α β : Type} {x : Option α} {y : Option β}
    {f : α → RPCParam} {g : β → RPCParam} {c₁ c₂ : CoreArg} {rest : List CoreArg}
    (htable : call.table = c₁ :: c₂ :: rest)
    (hparams : call.request.params = RPCClient.nested (x.map f) (y.map g))
    (hfirst : suppliedAs call.arguments c₁.name = x.map f) (hmembers₁ : c₁.members = [])
    (hsecond : suppliedAs call.arguments c₂.name = y.map g) (hmembers₂ : c₂.members = [])
    (hrest : ∀ c ∈ rest, Omitted call.arguments c) :
    call.IsLaid ↔ (y.isNone || x.isSome) = true := by
  have hshape : ((y.map g).isNone || (x.map f).isSome) = (y.isNone || x.isSome) := by
    rw [Option.isNone_map, Option.isSome_map]
  constructor
  · intro hlaid
    unfold IsLaid at hlaid
    rw [htable, hparams] at hlaid
    rw [← hshape]
    exact nested_of_laid hlaid hsecond
  · intro h
    rw [← hshape] at h
    refine isLaid_of_placedAll ?_ ?_
    · rw [htable, hparams]
      exact (length_nested _ _).trans (Nat.le_add_left 2 _)
    · rw [htable, hparams]
      exact placedAll_nested hfirst hmembers₁ hsecond hmembers₂ hrest h

theorem getChainTxStats_laid_iff (nBlocks : Option Int64) (hash : Option Data) :
    (getChainTxStats nBlocks hash).IsLaid ↔ (getChainTxStats nBlocks hash).aligned = true :=
  isLaid_nested_iff rfl rfl rfl rfl rfl rfl (List.forall_mem_nil _)

theorem getTxOutSetInfo_laid_iff (hashType hash : Option Data) :
    (getTxOutSetInfo hashType hash).IsLaid ↔ (getTxOutSetInfo hashType hash).aligned = true :=
  isLaid_nested_iff rfl rfl rfl rfl rfl rfl
    (List.forall_mem_singleton.2 (omitted_of_name rfl rfl))

theorem logging_laid_iff (included excluded : Option (List Data)) :
    (logging included excluded).IsLaid ↔ (logging included excluded).aligned = true :=
  isLaid_nested_iff rfl rfl rfl rfl rfl rfl (List.forall_mem_nil _)

/-- At the position of the options there is never an object. -/
theorem spaced_not_member (mempoolOnly returnSpendingTx : Option Bool) (name : String)
    (v : RPCParam) :
    ¬HasMember (RPCClient.spaced (mempoolOnly.map .bool) (returnSpendingTx.map .bool)).head?
      name v := by
  intro h
  obtain ⟨entries, u, hobject, -⟩ := h
  cases mempoolOnly with
  | some b => cases hobject
  | none =>
    cases returnSpendingTx with
    | some b => cases hobject
    | none => cases hobject

theorem getTxSpendingPrevout_laid_iff (outputs : List ParamDictionary)
    (mempoolOnly returnSpendingTx : Option Bool) :
    (getTxSpendingPrevout outputs mempoolOnly returnSpendingTx).IsLaid ↔
      (getTxSpendingPrevout outputs mempoolOnly returnSpendingTx).aligned = true := by
  constructor
  · intro hlaid
    -- what is supplied for an option would have to be a member of an object
    have hoptions := (hlaid.placed 1 ⟨"options", ["mempool_only", "return_spending_tx"]⟩ rfl).members
    have hposition : (getTxSpendingPrevout outputs mempoolOnly returnSpendingTx).request.params[1]? =
        (RPCClient.spaced (mempoolOnly.map .bool) (returnSpendingTx.map .bool)).head? :=
      List.head?_eq_getElem?.symm
    rw [hposition] at hoptions
    cases mempoolOnly with
    | some b =>
      exact absurd (hoptions "mempool_only" (List.mem_cons_self ..) (.bool b) rfl)
        (spaced_not_member _ _ _ _)
    | none =>
      cases returnSpendingTx with
      | some b =>
        exact absurd (hoptions "return_spending_tx" (by simp) (.bool b) rfl)
          (spaced_not_member _ _ _ _)
      | none => rfl
  · intro h
    simp only [aligned, Bool.and_eq_true, Option.isNone_iff_eq_none] at h
    obtain ⟨rfl, rfl⟩ := h
    refine isLaid_of_placedAll (by decide : 1 ≤ 2) ⟨Placed.supplied rfl rfl, ?_, trivial⟩
    exact Omitted.absent ⟨rfl, by simp [suppliedAs, arguments]⟩

theorem scanBlocks_laid_iff (action : Option Data) (descriptors : Option (List Data))
    (startHeight stopHeight : Option Int64) (filterType : Option Data) :
    (scanBlocks action descriptors startHeight stopHeight filterType).IsLaid ↔
      (scanBlocks action descriptors startHeight stopHeight filterType).aligned = true := by
  have haction : Placed (scanBlocks action descriptors startHeight stopHeight filterType).arguments
      ⟨"action", []⟩ (some (.string (action.getD (ascii "start")))) :=
    Placed.orPreset action rfl rfl rfl
  cases descriptors with
  | some d =>
    refine ⟨fun _ => rfl, fun _ => isLaid_of_placedAll (by decide : 5 ≤ 6) ?_⟩
    refine ⟨haction, Placed.supplied rfl rfl, Placed.orNull startHeight rfl rfl,
      Placed.orNull stopHeight rfl rfl, Placed.orPreset filterType rfl rfl rfl, ?_⟩
    exact placedAll_nil (List.forall_mem_singleton.2 ⟨rfl, List.forall_mem_singleton.2 rfl⟩)
  | none =>
    constructor
    · intro hlaid
      -- nothing stands after the action
      have hlost : ∀ (i : Nat) (c : CoreArg) (v : RPCParam),
          (scanBlocks action none startHeight stopHeight filterType).table[i + 1]? = some c →
          suppliedAs (scanBlocks action none startHeight stopHeight filterType).arguments c.name ≠
            some v := by
        intro i c v hc hgiven
        have hstands := (hlaid.placed (i + 1) c hc).carried v hgiven
        cases hstands
      cases startHeight with
      | some v => exact absurd rfl (hlost 1 ⟨"start_height", []⟩ (.int v) rfl)
      | none =>
        cases stopHeight with
        | some v => exact absurd rfl (hlost 2 ⟨"stop_height", []⟩ (.int v) rfl)
        | none =>
          cases filterType with
          | some v => exact absurd rfl (hlost 3 ⟨"filtertype", []⟩ (.string v) rfl)
          | none => rfl
    · intro h
      simp only [aligned, Option.isSome_none, Bool.false_or, Bool.and_eq_true,
        Option.isNone_iff_eq_none] at h
      obtain ⟨⟨rfl, rfl⟩, rfl⟩ := h
      refine isLaid_of_placedAll (by decide : 1 ≤ 6) ⟨haction, placedAll_nil fun c hc => ?_⟩
      simp only [List.mem_cons, List.not_mem_nil, or_false] at hc
      rcases hc with rfl | rfl | rfl | rfl | rfl <;> exact ⟨rfl, by simp [suppliedAs, arguments]⟩

theorem sendToAddress_laid (address : Data) (amount : Option NumText)
    (comment commentTo : Option Data) (subtractFeeFromAmount replaceable : Option Bool)
    (confTarget : Option Int64) :
    (sendToAddress address amount comment commentTo subtractFeeFromAmount replaceable
      confTarget).IsLaid := by
  refine isLaid_of_placedAll ?_ ?_
  · have := length_spaced (replaceable.map .bool) (confTarget.map .int)
    show (RPCClient.spaced _ _).length + 5 ≤ 11
    omega
  · refine ⟨Placed.supplied rfl rfl, Placed.supplied rfl rfl, Placed.orPreset comment rfl rfl rfl,
      Placed.orPreset commentTo rfl rfl rfl, Placed.orPreset subtractFeeFromAmount rfl rfl rfl, ?_⟩
    refine placedAll_spaced rfl rfl rfl rfl fun c hc => ?_
    simp only [List.mem_cons, List.not_mem_nil, or_false] at hc
    rcases hc with rfl | rfl | rfl | rfl <;> exact omitted_of_name rfl rfl

theorem walletSend_laid (outputs : List ParamDictionary) (options : Option ParamDictionary) :
    (walletSend outputs options).IsLaid := by
  cases options with
  | some o =>
    refine isLaid_of_placedAll (by decide : 5 ≤ 6) ⟨Placed.supplied rfl rfl, ?_⟩
    refine ⟨(omitted_of_name rfl rfl).null, (omitted_of_name rfl rfl).null,
      (omitted_of_name rfl rfl).null, Placed.supplied rfl rfl,
      placedAll_nil (List.forall_mem_singleton.2 (omitted_of_name rfl rfl))⟩
  | none =>
    refine isLaid_of_placedAll (by decide : 1 ≤ 6) ⟨Placed.supplied rfl rfl, ?_⟩
    refine placedAll_nil fun c hc => ?_
    simp only [List.mem_cons, List.not_mem_nil, or_false] at hc
    rcases hc with rfl | rfl | rfl | rfl | rfl <;> exact omitted_of_name rfl rfl

theorem listSinceBlock_laid (blockHash : Option Data) (targetConfirmations : Option Int64)
    (includeWatchOnly includeRemoved : Option Bool) :
    (listSinceBlock blockHash targetConfirmations includeWatchOnly includeRemoved).IsLaid := by
  refine isLaid_of_placedAll (by decide : 4 ≤ 6) ?_
  refine ⟨Placed.orNull blockHash rfl rfl, Placed.orPreset targetConfirmations rfl rfl rfl,
    Placed.orPreset includeWatchOnly rfl rfl rfl, Placed.orPreset includeRemoved rfl rfl rfl,
    placedAll_nil fun c hc => ?_⟩
  simp only [List.mem_cons, List.not_mem_nil, or_false] at hc
  rcases hc with rfl | rfl <;> exact omitted_of_name rfl rfl

end OptionalCall

/-- **The calls whose arguments arrive.** A call of one of the wrappers has every supplied argument
    where Core looks for it, and only those, just if it is aligned. -/
theorem optional_calls_laid_iff (call : OptionalCall) :
    Laid call.table call.arguments call.request.params ↔ call.aligned = true := by
  cases call with
  | getChainTxStats nBlocks hash => exact OptionalCall.getChainTxStats_laid_iff nBlocks hash
  | getTxOutSetInfo hashType hash => exact OptionalCall.getTxOutSetInfo_laid_iff hashType hash
  | getTxSpendingPrevout outputs mempoolOnly returnSpendingTx =>
    exact OptionalCall.getTxSpendingPrevout_laid_iff outputs mempoolOnly returnSpendingTx
  | logging included excluded => exact OptionalCall.logging_laid_iff included excluded
  | scanBlocks action descriptors startHeight stopHeight filterType =>
    exact OptionalCall.scanBlocks_laid_iff action descriptors startHeight stopHeight filterType
  | sendToAddress address amount comment commentTo subtractFee replaceable confTarget =>
    exact iff_of_true (OptionalCall.sendToAddress_laid _ _ _ _ _ _ _) rfl
  | walletSend outputs options => exact iff_of_true (OptionalCall.walletSend_laid _ _) rfl
  | listSinceBlock blockHash targetConfirmations includeWatchOnly includeRemoved =>
    exact iff_of_true (OptionalCall.listSinceBlock_laid _ _ _ _) rfl

/-- `getChainTxStats(hash: "00")` asks for the chain tip, and `getTxSpendingPrevout(outputs: [],`
    `mempoolOnly: true)` has a Boolean where Core takes an object. -/
theorem supplied_arguments_lost :
    (OptionalCall.getChainTxStats none (some (ascii "00"))).request.params = [] ∧
    ¬(OptionalCall.getChainTxStats none (some (ascii "00"))).IsLaid ∧
    (OptionalCall.getTxSpendingPrevout [] (some true) none).request.params =
      [.dictionaries [], .bool true] ∧
    ¬(OptionalCall.getTxSpendingPrevout [] (some true) none).IsLaid := by
  refine ⟨rfl, fun h => ?_, rfl, fun h => ?_⟩
  · have hlost := (h.placed 1 ⟨"blockhash", []⟩ rfl).carried _ rfl
    cases hlost
  · have hmember := (h.placed 1 ⟨"options", ["mempool_only", "return_spending_tx"]⟩ rfl).members
      "mempool_only" (List.mem_cons_self ..) _ rfl
    obtain ⟨entries, u, hobject, -⟩ := hmember
    cases hobject

end SwiftBitcoinKernel
