/-
  File:      SwiftBitcoinKernel/Rpc/Server.lean
  Subject:   Core's two answers to one RPC: the reply over HTTP, and the bridge's envelope.

  What `tableRPC.execute` does is left open; its outcome (`CallOutcome`) is a value, an error object
  it throws, or another exception.

  * `ErrorObject`, `jsonRPCReplyObj` -- `rpc/request.cpp`; an error object has its code and message
    by construction;
  * `JSONRPCRequest.parse`, `jsonErrorReply`, `httpReqJSONRPC` -- `httprpc.cpp`, for one authorised
    request. A batch, which this client never sends, is left out;
  * `bitcoinRpc` -- the envelope of `bitcoin_rpc.cpp`, for a bridge that is ready.
-/
import SwiftBitcoinKernel.Rpc.UniValue

namespace SwiftBitcoinKernel.Core

/-! ## 1. Outcomes of a call -/

/-- `RPC_INVALID_REQUEST`. -/
def rpcInvalidRequest : Int32 := -32600

/-- `RPC_METHOD_NOT_FOUND`. -/
def rpcMethodNotFound : Int32 := -32601

/-- `RPC_PARSE_ERROR`. -/
def rpcParseError : Int32 := -32700

/-- `RPC_MISC_ERROR`. -/
def rpcMiscError : Int32 := -1

/-- An error object that is thrown: an integer code, a message, and whatever else is in it. -/
structure ErrorObject where
  code : Int32
  message : Data
  more : List (Data × UniValue)
  unclashed : ∀ e ∈ more, e.1 ≠ ascii "code" ∧ e.1 ≠ ascii "message"

/-- The object itself. -/
def ErrorObject.toUniValue (e : ErrorObject) : UniValue :=
  .obj ((ascii "code", .num (.ofInt e.code.toInt)) :: (ascii "message", .str e.message) :: e.more)

/-- `JSONRPCError(code, message)`. -/
def jsonRPCError (code : Int32) (message : Data) : ErrorObject := ⟨code, message, [], nofun⟩

/-- How `tableRPC.execute` ends. -/
inductive CallOutcome where
  | result (r : UniValue)
  | thrown (e : ErrorObject)
  /-- A `std::exception`, by its `what()`. -/
  | exception (what : Data)

/-! ## 2. Requests and replies -/

/-- `JSONRPCVersion`. -/
inductive JSONRPCVersion where
  | v1Legacy
  | v2
  deriving DecidableEq, Repr

/-- `UniValue::isNull`. -/
def isNull : UniValue → Bool
  | .null => true
  | _ => false

/-- `JSONRPCReplyObj`. -/
def jsonRPCReplyObj (result error : UniValue) (id : Option UniValue) (version : JSONRPCVersion) :
    UniValue :=
  .obj <|
    (if version = .v2 then [(ascii "jsonrpc", .str (ascii "2.0"))] else []) ++
    (if isNull error then
      (ascii "result", result) :: if version = .v1Legacy then [(ascii "error", .null)] else []
    else
      (if version = .v1Legacy then [(ascii "result", .null)] else []) ++
        [(ascii "error", error)]) ++
    id.toList.map fun id => (ascii "id", id)

/-- `JSONRPCRequest`, by what a reply depends on. -/
structure JSONRPCRequest where
  id : Option UniValue
  strMethod : Data
  params : UniValue
  version : JSONRPCVersion

/-- As `HTTPReq_JSONRPC` declares it. -/
def JSONRPCRequest.initial : JSONRPCRequest := ⟨some .null, [], .null, .v1Legacy⟩

/-- `IsNotification`. -/
def JSONRPCRequest.isNotification (jreq : JSONRPCRequest) : Bool :=
  jreq.id.isNone && jreq.version = .v2

/-- The version of a request. -/
def parseVersion : UniValue → Except ErrorObject JSONRPCVersion
  | .null => .ok .v1Legacy
  | .str s =>
    if s = ascii "1.0" then .ok .v1Legacy
    else if s = ascii "2.0" then .ok .v2
    else .error (jsonRPCError rpcInvalidRequest (ascii "JSON-RPC version not supported"))
  | _ => .error (jsonRPCError rpcInvalidRequest (ascii "jsonrpc field must be a string"))

/-- Its method. -/
def parseMethod : UniValue → Except ErrorObject Data
  | .null => .error (jsonRPCError rpcInvalidRequest (ascii "Missing method"))
  | .str s => .ok s
  | _ => .error (jsonRPCError rpcInvalidRequest (ascii "Method must be a string"))

/-- Its parameters. -/
def parseParams : UniValue → Except ErrorObject UniValue
  | .arr values => .ok (.arr values)
  | .obj entries => .ok (.obj entries)
  | .null => .ok (.arr [])
  | _ => .error (jsonRPCError rpcInvalidRequest (ascii "Params must be an array or object"))

/-- `JSONRPCRequest::parse`, of an object. Where it throws, the request is filled that far. -/
def JSONRPCRequest.parse (request : List (Data × UniValue)) (jreq : JSONRPCRequest) :
    Except (ErrorObject × JSONRPCRequest) JSONRPCRequest :=
  let find (key : String) := (UniValue.obj request).findValue (ascii key)
  let jreq := { jreq with
    id := if request.any fun e => e.1 = ascii "id" then some (find "id") else none
    version := .v1Legacy }
  match parseVersion (find "jsonrpc") with
  | .error e => .error (e, jreq)
  | .ok version =>
    let jreq := { jreq with version := version }
    match parseMethod (find "method") with
    | .error e => .error (e, jreq)
    | .ok method =>
      let jreq := { jreq with strMethod := method }
      match parseParams (find "params") with
      | .error e => .error (e, jreq)
      | .ok params => .ok { jreq with params := params }

/-- What is sent back: a status and a body. -/
structure HTTPReply where
  status : Nat
  body : Data
  deriving DecidableEq, Repr

/-- `nStatus` of `JSONErrorReply`. -/
def errorStatus (e : ErrorObject) : Nat :=
  if e.code = rpcInvalidRequest then 400
  else if e.code = rpcMethodNotFound then 404
  else 500

/-- `JSONErrorReply`. -/
def jsonErrorReply (e : ErrorObject) (jreq : JSONRPCRequest) : HTTPReply where
  status := errorStatus e
  body := (jsonRPCReplyObj .null e.toUniValue jreq.id jreq.version).write ++ ascii "\n"

/-- The end of a request that did not throw. -/
def okReply (result error : UniValue) (jreq : JSONRPCRequest) : HTTPReply :=
  if jreq.isNotification then ⟨204, []⟩
  else ⟨200, (jsonRPCReplyObj result error jreq.id jreq.version).write ++ ascii "\n"⟩

/-- `HTTPReq_JSONRPC`, for an authorised request whose body is the text of an object. Only the
    nesting of a well-formed text can make `read` fail. -/
def httpReqJSONRPC (execute : JSONRPCRequest → CallOutcome) (request : List (Data × UniValue)) :
    HTTPReply :=
  if !readNesting 0 (UniValue.obj request).brackets then
    jsonErrorReply (jsonRPCError rpcParseError (ascii "Parse error")) .initial
  else
    match JSONRPCRequest.parse request .initial with
    | .error (e, jreq) => jsonErrorReply e jreq
    | .ok jreq =>
      -- a legacy request lets what `execute` throws through to the catch clauses
      match execute jreq with
      | .result r => okReply r .null jreq
      | .thrown e =>
        if jreq.version = .v2 then okReply .null e.toUniValue jreq else jsonErrorReply e jreq
      | .exception what =>
        if jreq.version = .v2 then okReply .null (jsonRPCError rpcMiscError what).toUniValue jreq
        else jsonErrorReply (jsonRPCError rpcParseError what) jreq

/-! ## 3. The bridge -/

/-- The envelopes of `bitcoin_rpc`. -/
def bridgeEnvelope : CallOutcome → UniValue
  | .result r => .obj [(ascii "result", r), (ascii "error", .null), (ascii "id", .str (ascii "1"))]
  | .thrown e => .obj [(ascii "result", .null), (ascii "error", e.toUniValue),
      (ascii "id", .str (ascii "1"))]
  | .exception what => .obj [(ascii "result", .null),
      (ascii "error", (jsonRPCError (-32603) what).toUniValue), (ascii "id", .str (ascii "1"))]

/-- `bitcoin_rpc`, on a bridge that is ready: the C string it returns. -/
def bitcoinRpc (outcome : CallOutcome) : Data := toHeap (bridgeEnvelope outcome).write

end SwiftBitcoinKernel.Core
