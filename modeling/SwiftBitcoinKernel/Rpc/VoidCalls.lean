/-
  File:      SwiftBitcoinKernel/Rpc/VoidCalls.lean
  Subject:   The calls that go through `sendVoid`: do they return when the node has done its part?

  `sendVoid` decodes the result of the envelope as a `String?`, and drops it. A result of any other
  type fails to decode, behind a call that has taken effect.

  * `VoidCall`, `VoidCall.request`, `VoidCall.send` -- every wrapper that is built on `sendVoid`;
  * `Core.RPCResult`, `Core.RPCResult.matchesType` -- the declarations of results, and the check
    against them; `Core.declared` -- those of the methods called;
  * `decodeVoid_returns_iff` -- on a success envelope `sendVoid` returns just if the result is null or
    a string;
  * `void_calls_return_iff` -- so a wrapper returns just if its method is declared to return nothing;
    `saveMempool_fails` -- one that is not.
-/
import SwiftBitcoinKernel.Rpc.EntryPoints

namespace SwiftBitcoinKernel

/-! ## 1. The wrappers -/

/-- The wrappers, with their arguments. -/
inductive VoidCall where
  | preciousBlock (hash : Data)
  | saveMempool
  | importMempool (filePath : Data)
  | invalidateBlock (hash : Data)
  | reconsiderBlock (hash : Data)
  | getBlockFromPeer (hash : Data) (peerId : Int64)
  | syncWithValidationInterfaceQueue
  | submitHeader (hexData : Data)
  | addNode (address command : Data)
  | disconnectNode (address : Option Data) (nodeId : Option Int64)
  | clearBanned
  | ping
  | setBan (subnet command : Data) (banTime : Int64) (absolute : Bool)
  | sendMsgToPeer (peerId : Int64) (msgType msg : Data)
  | abortPrivateBroadcast (id : Data)
  | unloadWallet (wallet : Data) (loadOnStartup : Option Bool)
  | setLabel (wallet address label : Data)
  | keypoolRefill (wallet : Data) (newSize : Int64)
  | abandonTransaction (wallet txid : Data)
  | backupWallet (wallet destination : Data)
  | importPrunedFunds (wallet rawTransaction txOutProof : Data)
  | removePrunedFunds (wallet txid : Data)
  | walletPassphrase (wallet passphrase : Data) (timeout : Int64)
  | walletPassphraseChange (wallet oldPassphrase newPassphrase : Data)
  | walletLock (wallet : Data)

/-- What a wrapper passes to `sendVoid`; with a wallet, to the wallet-scoped one. -/
structure VoidRequest where
  method : Data
  wallet : Option Data
  params : List RPCParam

/-- The bodies of the wrappers. -/
def VoidCall.request : VoidCall → VoidRequest
  | .preciousBlock hash => ⟨ascii "preciousblock", none, [.string hash]⟩
  | .saveMempool => ⟨ascii "savemempool", none, []⟩
  | .importMempool filePath => ⟨ascii "importmempool", none, [.string filePath]⟩
  | .invalidateBlock hash => ⟨ascii "invalidateblock", none, [.string hash]⟩
  | .reconsiderBlock hash => ⟨ascii "reconsiderblock", none, [.string hash]⟩
  | .getBlockFromPeer hash peerId =>
    ⟨ascii "getblockfrompeer", none, [.string hash, .int peerId]⟩
  | .syncWithValidationInterfaceQueue => ⟨ascii "syncwithvalidationinterfacequeue", none, []⟩
  | .submitHeader hexData => ⟨ascii "submitheader", none, [.string hexData]⟩
  | .addNode address command => ⟨ascii "addnode", none, [.string address, .string command]⟩
  | .disconnectNode (some address) _ => ⟨ascii "disconnectnode", none, [.string address]⟩
  | .disconnectNode none (some nodeId) =>
    ⟨ascii "disconnectnode", none, [.string [], .int nodeId]⟩
  | .disconnectNode none none => ⟨ascii "disconnectnode", none, []⟩
  | .clearBanned => ⟨ascii "clearbanned", none, []⟩
  | .ping => ⟨ascii "ping", none, []⟩
  | .setBan subnet command banTime absolute =>
    ⟨ascii "setban", none, [.string subnet, .string command, .int banTime, .bool absolute]⟩
  | .sendMsgToPeer peerId msgType msg =>
    ⟨ascii "sendmsgtopeer", none, [.int peerId, .string msgType, .string msg]⟩
  | .abortPrivateBroadcast id => ⟨ascii "abortprivatebroadcast", none, [.string id]⟩
  | .unloadWallet wallet loadOnStartup =>
    -- the wallet is an argument here: the request is not wallet-scoped
    ⟨ascii "unloadwallet", none, [.string wallet, loadOnStartup.elim .null .bool]⟩
  | .setLabel wallet address label =>
    ⟨ascii "setlabel", some wallet, [.string address, .string label]⟩
  | .keypoolRefill wallet newSize => ⟨ascii "keypoolrefill", some wallet, [.int newSize]⟩
  | .abandonTransaction wallet txid => ⟨ascii "abandontransaction", some wallet, [.string txid]⟩
  | .backupWallet wallet destination =>
    ⟨ascii "backupwallet", some wallet, [.string destination]⟩
  | .importPrunedFunds wallet rawTransaction txOutProof =>
    ⟨ascii "importprunedfunds", some wallet, [.string rawTransaction, .string txOutProof]⟩
  | .removePrunedFunds wallet txid => ⟨ascii "removeprunedfunds", some wallet, [.string txid]⟩
  | .walletPassphrase wallet passphrase timeout =>
    ⟨ascii "walletpassphrase", some wallet, [.string passphrase, .int timeout]⟩
  | .walletPassphraseChange wallet oldPassphrase newPassphrase =>
    ⟨ascii "walletpassphrasechange", some wallet, [.string oldPassphrase, .string newPassphrase]⟩
  | .walletLock wallet => ⟨ascii "walletlock", some wallet, []⟩

/-- A wrapper, called on a client. -/
def VoidCall.send (F : Foundation) (U : URLFoundation) (transport : RPCTransport Unit)
    (c : VoidCall) : Except (RPCFailure Unit) Unit :=
  match c.request.wallet with
  | none => RPCClient.sendVoid F transport c.request.method c.request.params
  | some wallet =>
    RPCClient.sendVoidWallet F U transport c.request.method wallet c.request.params

/-! ## 2. What Core declares -/

/-- `RPCResult::Type`, as far as these methods use it. -/
inductive Core.RPCResultType where
  | none
  | str
  | strHex
  | arr
  | obj
  deriving DecidableEq, Repr

/-- `RPCResult`: its type, the key it stands under, whether it may be missing there, and what is
    inside. -/
inductive Core.RPCResult where
  | mk (type : Core.RPCResultType) (keyName : Data) (optional : Bool) (inner : List Core.RPCResult)

namespace Core.RPCResult

/-- `m_type`. -/
def type : RPCResult → RPCResultType
  | .mk type _ _ _ => type

/-- `m_key_name`. -/
def keyName : RPCResult → Data
  | .mk _ keyName _ _ => keyName

/-- `m_optional`. -/
def optional : RPCResult → Bool
  | .mk _ _ optional _ => optional

mutual

/-- `RPCResult::MatchesType`. -/
def matchesType : RPCResult → UniValue → Bool
  | .mk .none _ _ _, .null => true
  | .mk .str _ _ _, .str _ => true
  | .mk .strHex _ _ _, .str _ => true
  | .mk .arr _ _ inner, .arr values => matchesArray inner values
  | .mk .obj _ _ inner, .obj entries =>
    (entries.all fun e => inner.any fun doc => doc.keyName == e.1) && matchesObject inner entries
  | _, _ => false

/-- The elements of an array; the last documented one is reused. -/
def matchesArray : List RPCResult → List UniValue → Bool
  | [], values => values.isEmpty
  | [doc], values => values.all fun v => doc.matchesType v
  | doc :: docs, v :: values => doc.matchesType v && matchesArray docs values
  | _ :: _, [] => true

/-- The documented entries of an object. -/
def matchesObject : List RPCResult → List (Data × UniValue) → Bool
  | [], _ => true
  | doc :: docs, entries =>
    (match (entries.find? fun e => e.1 == doc.keyName).map Prod.snd with
      | some v => doc.matchesType v
      | none => doc.optional) && matchesObject docs entries

end

end Core.RPCResult

/-- `RPCResult{RPCResult::Type::NONE, "", ""}`. -/
def Core.resultNone : Core.RPCResult := .mk .none [] false []

/-- `RPCResult{RPCResult::Type::OBJ, "", "", {…}}`. -/
def Core.resultObject (inner : List Core.RPCResult) : Core.RPCResult := .mk .obj [] false inner

/-- The result of the method a wrapper calls, as Core declares it. -/
def Core.declared : VoidCall → Core.RPCResult
  | .saveMempool => Core.resultObject [.mk .str (ascii "filename") false []]
  | .importMempool .. | .getBlockFromPeer .. | .sendMsgToPeer .. => Core.resultObject []
  | .abortPrivateBroadcast .. =>
    Core.resultObject [.mk .arr (ascii "removed_transactions") false
      [Core.resultObject [.mk .strHex (ascii "txid") false [],
        .mk .strHex (ascii "wtxid") false [], .mk .strHex (ascii "hex") false []]]]
  | .unloadWallet .. =>
    Core.resultObject [.mk .arr (ascii "warnings") true [.mk .str [] false []]]
  | .preciousBlock .. | .invalidateBlock .. | .reconsiderBlock ..
  | .syncWithValidationInterfaceQueue | .submitHeader .. | .addNode .. | .disconnectNode ..
  | .clearBanned | .ping | .setBan .. | .setLabel .. | .keypoolRefill ..
  | .abandonTransaction .. | .backupWallet .. | .importPrunedFunds .. | .removePrunedFunds ..
  | .walletPassphrase .. | .walletPassphraseChange .. | .walletLock .. => Core.resultNone

/-! ## 3. Success envelopes -/

section Success

variable {F : Foundation} {body : Data} {entries : List (Data × UniValue)} {id : Data}
  (method : Data)

/-- A success envelope, as `sendVoid` decodes it. -/
theorem decodeVoid_success (hparse : F.parse body = some (.obj entries))
    (herror : (UniValue.obj entries).findValue (ascii "error") = .null)
    (hid : (UniValue.obj entries).findValue (ascii "id") = .str id) :
    RPCClient.decodeVoid F method body =
      match decodeResult decodeOptionalString
        ((UniValue.obj entries).findValue (ascii "result")) with
      | .ok _ => .ok ()
      | .error d => .error (.decodingFailed method d) := by
  unfold RPCClient.decodeVoid RPCClient.decodeNullable Foundation.decode
  rw [hparse]
  dsimp only [Foundation.decodeResponse]
  rw [herror, hid]
  cases decodeResult decodeOptionalString
    ((UniValue.obj entries).findValue (ascii "result")) with
  | error d => rfl
  | ok result => rfl

/-- The result is null, or a string. -/
def NullOrString (v : UniValue) : Prop := v = .null ∨ ∃ s, v = .str s

/-- **On a success envelope `sendVoid` returns just if the result is null or a string.** -/
theorem decodeVoid_returns_iff (hparse : F.parse body = some (.obj entries))
    (herror : (UniValue.obj entries).findValue (ascii "error") = .null)
    (hid : (UniValue.obj entries).findValue (ascii "id") = .str id) :
    RPCClient.decodeVoid F method body = .ok () ↔
      NullOrString ((UniValue.obj entries).findValue (ascii "result")) := by
  rw [decodeVoid_success method hparse herror hid]
  cases (UniValue.obj entries).findValue (ascii "result") with
  | null => exact iff_of_true rfl (.inl rfl)
  | str s => exact iff_of_true rfl (.inr ⟨s, rfl⟩)
  | bool | num | arr | obj =>
    refine iff_of_false nofun ?_
    rintro (h | ⟨_, h⟩) <;> cases h

end Success

/-! ## 4. The wrappers on what Core declares -/

/-- The methods are declared to return nothing, or an object. -/
theorem declared_type (c : VoidCall) :
    (Core.declared c).type = .none ∨ (Core.declared c).type = .obj := by
  cases c <;> first | exact .inl rfl | exact .inr rfl

/-- A declared result is null or a string just if nothing is declared. -/
theorem nullOrString_declared {r : Core.RPCResult} {v : UniValue} (hmatch : r.matchesType v = true)
    (htype : r.type = .none ∨ r.type = .obj) : NullOrString v ↔ r.type = .none := by
  obtain ⟨type, keyName, optional, inner⟩ := r
  rcases htype with rfl | rfl
  · cases v with
    | null => exact iff_of_true (.inl rfl) rfl
    | bool | num | str | arr | obj => cases hmatch
  · cases v with
    | obj entries =>
      refine iff_of_false ?_ nofun
      rintro (h | ⟨_, h⟩) <;> cases h
    | null | bool | num | str | arr => cases hmatch

theorem voidCall_send (F : Foundation) (U : URLFoundation) (body : Data) (c : VoidCall) :
    c.send F U (RPCClient.replying body) = RPCClient.decodeVoid F c.request.method body := by
  unfold VoidCall.send
  cases c.request.wallet <;> rfl

/-- **`sendVoid` returns just on null and strings, a wrapper just if its method is declared to return
    nothing.** For every reply with a null `error` and a string for `id`: both `sendVoid` return if
    and only if the result is null, absent or a string; and a wrapper that is sent a result Core
    declares for its method returns if and only if that declaration is `NONE`. -/
theorem void_calls_return_iff (F : Foundation) (U : URLFoundation) (body method wallet id : Data)
    (params : List RPCParam) (entries : List (Data × UniValue))
    (hparse : F.parse body = some (.obj entries))
    (herror : (UniValue.obj entries).findValue (ascii "error") = .null)
    (hid : (UniValue.obj entries).findValue (ascii "id") = .str id) :
    (RPCClient.sendVoid F (RPCClient.replying body) method params = .ok () ↔
      NullOrString ((UniValue.obj entries).findValue (ascii "result"))) ∧
    (RPCClient.sendVoidWallet F U (RPCClient.replying body) method wallet params = .ok () ↔
      NullOrString ((UniValue.obj entries).findValue (ascii "result"))) ∧
    ∀ c : VoidCall,
      (Core.declared c).matchesType ((UniValue.obj entries).findValue (ascii "result")) = true →
      (c.send F U (RPCClient.replying body) = .ok () ↔ (Core.declared c).type = .none) := by
  refine ⟨decodeVoid_returns_iff method hparse herror hid,
    decodeVoid_returns_iff method hparse herror hid, fun c hmatch => ?_⟩
  rw [voidCall_send, decodeVoid_returns_iff _ hparse herror hid]
  exact nullOrString_declared hmatch (declared_type c)

/-- The reply to a call that returns `result`. -/
def successReply (result : UniValue) : UniValue := envelope result .null (.str (ascii "1"))

/-- `ping` returns. -/
theorem ping_returns :
    VoidCall.ping.send (envelopeReader (successReply .null)) pathFoundation
      (RPCClient.replying (successReply .null).write) = .ok () :=
  ((void_calls_return_iff _ pathFoundation _ [] [] (ascii "1") [] _
    (envelopeReader_parse (successReply .null)) rfl rfl).2.2 .ping rfl).2 rfl

/-- What `savemempool` returns. -/
def savedMempool : UniValue := .obj [(ascii "filename", .str (ascii "/data/mempool.dat"))]

/-- **`saveMempool` throws although the node has written the file**: the object that `savemempool` is
    declared to return does not decode as a `String?`. -/
theorem saveMempool_fails :
    (Core.declared .saveMempool).matchesType savedMempool = true ∧
      VoidCall.saveMempool.send (envelopeReader (successReply savedMempool)) pathFoundation
          (RPCClient.replying (successReply savedMempool).write) =
        .error (.decodingFailed (ascii "savemempool") (.result ())) := by
  refine ⟨by decide, ?_⟩
  rw [voidCall_send,
    decodeVoid_success _ (envelopeReader_parse (successReply savedMempool)) rfl rfl]
  rfl

end SwiftBitcoinKernel
